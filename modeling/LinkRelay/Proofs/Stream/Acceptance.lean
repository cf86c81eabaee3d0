import LinkRelay.Proofs.Stream.Received
import LinkRelay.Proofs.Text.Numeral
set_option autoImplicit false

/-!
# Responses that are accepted

A media request accepts a response by its status and, where it asks for a range, by the bytes that
the response says it brings. `Prepared.Answers` says which responses answer a request, and
`Prepared.Refused` which failure any other one becomes.
-/

namespace LinkRelay

/-- The header values that name the bytes from one position to another. A numeral has no dash and
    no slash, so the first ones of the value are meant. -/
def NamesBytes (value : List Char) (a b : Nat) : Prop :=
  ∃ first last total,
    Text.trim value = "bytes ".toList ++ (first ++ '-' :: last ++ '/' :: total) ∧
    (Text.IsNumeral (Text.trim first) a ∧ a ≤ Text.maxU64) ∧
    (Text.IsNumeral (Text.trim last) b ∧ b ≤ Text.maxU64)

theorem readPosition_eq_ok_iff {which : String} {digits : List Char} {n : Nat} :
    readPosition which digits = .ok n ↔
      Text.IsNumeral (Text.trim digits) n ∧ n ≤ Text.maxU64 := by
  rw [← Text.readNumber_eq_ok_iff, readPosition, Text.readU64]
  cases Text.readNumber Text.maxU64 (Text.trim digits) <;> simp [Except.mapError]

theorem readPosition_error {which : String} {digits : List Char} {f : Failure}
    (h : readPosition which digits = .error f) : ∃ fault, f = .parse fault := by
  unfold readPosition at h
  cases hread : Text.readU64 (Text.trim digits) with
  | ok n => rw [hread] at h; cases h
  | error fault => rw [hread] at h; cases h; exact ⟨_, rfl⟩

theorem readContentRange_judged (value : String) :
    match readContentRange value with
    | .ok (a, b) => NamesBytes value.toList a b
    | .error f => ∃ fault, f = .parse fault := by
  unfold readContentRange
  dsimp only [bind, Except.bind, pure, Except.pure, throw, throwThe, MonadExceptOf.throw]
  cases hrange : Text.after? "bytes ".toList (Text.trim value.toList) with
  | none => exact ⟨_, rfl⟩
  | some range =>
    dsimp only
    cases hspan : Text.splitFirst '/' range with
    | none => exact ⟨_, rfl⟩
    | some pieces =>
      obtain ⟨span, total⟩ := pieces
      dsimp only
      cases hsplit : Text.splitFirst '-' span with
      | none => exact ⟨_, rfl⟩
      | some bounds =>
        obtain ⟨first, last⟩ := bounds
        dsimp only
        cases hfirst : readPosition "start" first with
        | error f => exact readPosition_error hfirst
        | ok a =>
          dsimp only
          cases hlast : readPosition "end" last with
          | error f => exact readPosition_error hlast
          | ok b =>
            refine ⟨first, last, total, ?_, readPosition_eq_ok_iff.1 hfirst,
              readPosition_eq_ok_iff.1 hlast⟩
            rw [Text.eq_append_of_after? hrange, Text.splitFirst_append hspan,
              Text.splitFirst_append hsplit]

theorem readContentRange_of_names {value : String} {a b : Nat}
    (h : NamesBytes value.toList a b) : readContentRange value = .ok (a, b) := by
  obtain ⟨first, last, total, htext, hfirst, hlast⟩ := h
  have hdash : '-' ∉ first := hfirst.1.notMem_of_trim rfl (by decide) rfl
  have hslash : '/' ∉ first ++ '-' :: last := by
    rw [List.mem_append, List.mem_cons, not_or, not_or]
    exact ⟨hfirst.1.notMem_of_trim rfl (by decide) rfl, by decide,
      hlast.1.notMem_of_trim rfl (by decide) rfl⟩
  unfold readContentRange
  dsimp only [bind, Except.bind, pure, Except.pure, throw, throwThe, MonadExceptOf.throw]
  rw [htext, Text.after?_append]
  dsimp only
  rw [Text.splitFirst_of_notMem total hslash]
  dsimp only
  rw [Text.splitFirst_of_notMem last hdash]
  dsimp only
  rw [readPosition_eq_ok_iff.2 hfirst]
  dsimp only
  rw [readPosition_eq_ok_iff.2 hlast]

theorem NamesBytes.unique {value : String} {a b a' b' : Nat} (h : NamesBytes value.toList a b)
    (h' : NamesBytes value.toList a' b') : a' = a ∧ b' = b := by
  have heq := (readContentRange_of_names h').symm.trans (readContentRange_of_names h)
  cases heq
  exact ⟨rfl, rfl⟩

theorem checkContentRange_judged (range : ByteRange) (value : String) :
    match checkContentRange range value with
    | .ok _ => NamesBytes value.toList range.first range.last
    | .error f => ¬ NamesBytes value.toList range.first range.last ∧ ∃ fault, f = .parse fault := by
  have hread := readContentRange_judged value
  unfold checkContentRange
  dsimp only [bind, Except.bind, pure, Except.pure, throw, throwThe, MonadExceptOf.throw]
  cases hr : readContentRange value with
  | error f =>
    rw [hr] at hread
    refine ⟨fun hnames => ?_, hread⟩
    rw [readContentRange_of_names hnames] at hr
    cases hr
  | ok named =>
    obtain ⟨a, b⟩ := named
    rw [hr] at hread
    dsimp only
    by_cases hsame : (a, b) = (range.first, range.last)
    · cases hsame
      rw [if_neg (not_not.2 rfl)]
      exact hread
    · rw [if_pos hsame]
      refine ⟨fun hnames => ?_, _, rfl⟩
      obtain ⟨rfl, rfl⟩ := hread.unique hnames
      exact hsame rfl

namespace Http.Response

def FirstHeader (r : Response) (name : String) (value : List Char) : Prop :=
  ∃ before spelled text after, r.headers = before ++ (spelled, text) :: after ∧
    Text.asciiLower spelled.toList = Text.asciiLower name.toList ∧
    (∀ h ∈ before, Text.asciiLower h.1.toList ≠ Text.asciiLower name.toList) ∧
    value = trimGap text

def IsText (value : List Char) : Prop := ∀ c ∈ value, 0x20 ≤ c.toNat ∧ c.toNat < 0x7F ∨ c = '\t'

theorem header?_eq_some_iff {r : Response} {name : String} {value : List Char} :
    r.header? name = some value ↔ r.FirstHeader name value := by
  unfold header? FirstHeader
  simp only [Option.map_eq_some_iff, List.find?_eq_some_iff_append, beq_iff_eq,
    Bool.not_eq_eq_eq_not, Bool.not_true, beq_eq_false_iff_ne]
  constructor
  · rintro ⟨⟨spelled, text⟩, ⟨hname, before, after, hheaders, hbefore⟩, rfl⟩
    exact ⟨before, spelled, text, after, hheaders, hname, hbefore, rfl⟩
  · rintro ⟨before, spelled, text, after, hheaders, hname, hbefore, rfl⟩
    exact ⟨(spelled, text), ⟨hname, before, after, hheaders, hbefore⟩, rfl⟩

theorem textHeader?_eq_some_iff {r : Response} {name text : String} :
    r.textHeader? name = some text ↔ r.FirstHeader name text.toList ∧ IsText text.toList := by
  unfold textHeader?
  rw [Option.bind_eq_some_iff]
  constructor
  · rintro ⟨value, hvalue, h⟩
    split at h
    · rename_i hall
      cases h
      rw [String.toList_ofList]
      refine ⟨header?_eq_some_iff.1 hvalue, fun c hc => ?_⟩
      simpa using List.all_eq_true.1 hall c hc
    · cases h
  · rintro ⟨hfirst, htext⟩
    refine ⟨text.toList, header?_eq_some_iff.2 hfirst, ?_⟩
    rw [if_pos, String.ofList_toList]
    rw [List.all_eq_true]
    intro c hc
    simpa using htext c hc

/-- A response that may be taken for a range: it is partial content, and its first `Content-Range`
    header names no other bytes, if it has one that is text. -/
structure Brings (r : Response) (range : ByteRange) : Prop where
  partly : r.status = 206
  named {value : List Char} (hfirst : r.FirstHeader "Content-Range" value) (htext : IsText value) :
    NamesBytes value range.first range.last

theorem brings_of_absent {r : Response} (range : ByteRange) (hstatus : r.status = 206)
    (h : r.textHeader? "Content-Range" = none) : r.Brings range := by
  refine ⟨hstatus, fun {value} hfirst htext => ?_⟩
  have hsome : r.textHeader? "Content-Range" = some (String.ofList value) :=
    textHeader?_eq_some_iff.2 (by simpa using ⟨hfirst, htext⟩)
  rw [h] at hsome
  cases hsome

theorem brings_of_names {r : Response} {range : ByteRange} {text : String}
    (hstatus : r.status = 206) (h : r.textHeader? "Content-Range" = some text)
    (hnames : NamesBytes text.toList range.first range.last) : r.Brings range := by
  refine ⟨hstatus, fun hfirst _ => ?_⟩
  have hsame := (header?_eq_some_iff.2 hfirst).symm.trans
    (header?_eq_some_iff.2 (textHeader?_eq_some_iff.1 h).1)
  rwa [Option.some_inj.1 hsame]

end Http.Response

namespace Prepared

def Answers (p : Prepared) (r : Http.Response) : Prop :=
  (200 ≤ r.status ∧ r.status < 300) ∧ ∀ range, p.range = some range → r.Brings range

/-- The failure that a response becomes which does not answer its request. -/
inductive Refused (decoders : Http.Decoders) (p : Prepared) (r : Http.Response) :
    Failure → Prop
  | client (h : 400 ≤ r.status ∧ r.status < 500) :
    Refused decoders p r (.status .client r.status p.address (r.text decoders))
  | server (h : 500 ≤ r.status ∧ r.status < 600) :
    Refused decoders p r (.status .server r.status p.address (r.text decoders))
  | unexpected (h : r.status < 200 ∨ 300 ≤ r.status ∧ r.status < 400 ∨ 600 ≤ r.status) :
    Refused decoders p r (.status .unexpected r.status p.address (r.text decoders))
  | whole {range : ByteRange} (hrange : p.range = some range)
    (h : 200 ≤ r.status ∧ r.status < 300 ∧ r.status ≠ 206) :
    Refused decoders p r
      (.status .unexpected r.status p.address s!"expected 206 for range {range.header}")
  | elsewhere {range : ByteRange} {value : List Char} {fault : ParseFault}
    (hrange : p.range = some range) (h : r.status = 206)
    (hfirst : r.FirstHeader "Content-Range" value) (htext : Http.Response.IsText value)
    (hnames : ¬ NamesBytes value range.first range.last) : Refused decoders p r (.parse fault)

theorem refused_ofStatus (decoders : Http.Decoders) (p : Prepared) {r : Http.Response}
    (h : ¬ (200 ≤ r.status ∧ r.status < 300)) :
    p.Refused decoders r (.ofStatus r.status p.address (r.text decoders)) := by
  unfold Failure.ofStatus
  split
  · rename_i hclient
    exact .client hclient
  · split
    · rename_i hserver
      exact .server hserver
    · exact .unexpected (by omega)

theorem Refused.not_answers {decoders : Http.Decoders} {p : Prepared} {r : Http.Response}
    {f : Failure}
    (h : p.Refused decoders r f) : ¬ p.Answers r := by
  rintro ⟨hstatus, hbrings⟩
  cases h with
  | client h | server h | unexpected h => omega
  | whole hrange h => exact h.2.2 (hbrings _ hrange).partly
  | elsewhere hrange h hfirst htext hnames => exact hnames ((hbrings _ hrange).named hfirst htext)

theorem range_judged (decoders : Http.Decoders) {p : Prepared} {r : Http.Response}
    {range : ByteRange}
    (hrange : p.range = some range) (hstatus : 200 ≤ r.status ∧ r.status < 300) :
    match p.accept decoders r with
    | .ok r' => r' = r ∧ r.Brings range
    | .error f => p.Refused decoders r f := by
  have hsuccess : r.isSuccess = true := by simpa [Http.Response.isSuccess] using hstatus
  unfold accept
  dsimp only [bind, Except.bind, pure, Except.pure, throw, throwThe, MonadExceptOf.throw]
  rw [hsuccess, if_neg (by decide), hrange]
  dsimp only
  by_cases hpartial : r.status = 206
  · rw [if_neg (not_not.2 hpartial)]
    cases hvalue : r.textHeader? "Content-Range" with
    | none => exact ⟨rfl, Http.Response.brings_of_absent range hpartial hvalue⟩
    | some value =>
      have hcheck := checkContentRange_judged range value
      dsimp only
      cases hc : checkContentRange range value with
      | ok _ =>
        rw [hc] at hcheck
        exact ⟨rfl, Http.Response.brings_of_names hpartial hvalue hcheck⟩
      | error f =>
        rw [hc] at hcheck
        obtain ⟨hnot, fault, rfl⟩ := hcheck
        obtain ⟨hfirst, htext⟩ := Http.Response.textHeader?_eq_some_iff.1 hvalue
        exact .elsewhere hrange hpartial hfirst htext hnot
  · rw [if_pos hpartial]
    exact .whole hrange ⟨hstatus.1, hstatus.2, hpartial⟩

theorem accept_judged (decoders : Http.Decoders) (p : Prepared) (r : Http.Response) :
    match p.accept decoders r with
    | .ok r' => r' = r ∧ p.Answers r
    | .error f => p.Refused decoders r f := by
  have hsuccess : r.isSuccess = true ↔ 200 ≤ r.status ∧ r.status < 300 := by
    simp [Http.Response.isSuccess]
  by_cases hstatus : 200 ≤ r.status ∧ r.status < 300
  · cases hrange : p.range with
    | none =>
      have haccept : p.accept decoders r = .ok r := by
        simp [accept, hsuccess.2 hstatus, hrange, pure, Except.pure]
      rw [haccept]
      exact ⟨rfl, hstatus, fun _ h => by simp [hrange] at h⟩
    | some range =>
      have hjudged := range_judged decoders hrange hstatus
      cases haccept : p.accept decoders r with
      | error f =>
        rw [haccept] at hjudged
        exact hjudged
      | ok r' =>
        rw [haccept] at hjudged
        refine ⟨hjudged.1, hstatus, fun other hother => ?_⟩
        rw [hrange] at hother
        cases hother
        exact hjudged.2
  · have hfails : r.isSuccess = false := Bool.eq_false_iff.2 (mt hsuccess.1 hstatus)
    have haccept :
        p.accept decoders r = .error (.ofStatus r.status p.address (r.text decoders)) := by
      simp [accept, hfails, bind, Except.bind, throw, throwThe, MonadExceptOf.throw]
    rw [haccept]
    exact p.refused_ofStatus decoders hstatus

theorem send_run (p : Prepared) (wire : Http.Wire) :
    p.send.run wire = match (Http.send p.draft).run wire with
      | (.ok r, after) => (p.accept wire.platform.decoders r, after)
      | (.error f, after) => (.error f, after) := by
  unfold send
  rw [Http.OnWire.bind_platform]
  rcases hsend : (Http.send p.draft).run wire with ⟨answer, after⟩
  cases answer with
  | error f => exact Http.OnWire.bind_of_error hsend _
  | ok r =>
    rw [Http.OnWire.bind_of_ok hsend]
    dsimp only
    cases p.accept wire.platform.decoders r <;> rfl

end Prepared

/-- An upstream whose responses are held against their requests. -/
def Upstream.screened (decoders : Http.Decoders)
    (answer : List Asked → Prepared → Except Failure Http.Response)
    (refresh : List Asked → CachedFile → Except Failure CachedFile) : Upstream where
  send asked p := answer asked p >>= p.accept decoders
  refresh := refresh

section Screened

variable {decoders : Http.Decoders}
variable {answer : List Asked → Prepared → Except Failure Http.Response}
variable {refresh : List Asked → CachedFile → Except Failure CachedFile}

theorem Upstream.answers_of_send {asked : List Asked} {p : Prepared} {response : Http.Response}
    (h : (screened decoders answer refresh).send asked p = .ok response) : p.Answers response := by
  change (answer asked p >>= p.accept decoders) = _ at h
  cases hanswer : answer asked p with
  | error f => rw [hanswer] at h; cases h
  | ok r =>
    rw [hanswer] at h
    change p.accept decoders r = _ at h
    have hjudged := p.accept_judged decoders r
    rw [h] at hjudged
    obtain ⟨rfl, hanswers⟩ := hjudged
    exact hanswers

namespace Reader

def IsAnswered (r : Reader) : Prop :=
  ∀ p response, .sent p (.ok response) ∈ r.asked → p.Answers response

theorem isAnswered_of_opened? {file : CachedFile} {p : Prepared} {r : Reader}
    (h : opened? (.screened decoders answer refresh) file p = some r) : r.IsAnswered := by
  obtain ⟨response, hsend, rfl⟩ := opened?_eq_some h
  intro q other hmem
  cases List.mem_singleton.1 hmem
  exact Upstream.answers_of_send hsend

theorem IsAnswered.step {r : Reader} {given : Except Failure (Option Bytes)} {new : List Asked}
    {s : LinkStream} (h : r.IsAnswered)
    (hstep : Step (.screened decoders answer refresh) r given new s) :
    IsAnswered ⟨r.answers ++ [given], s, r.asked ++ new⟩ := by
  intro q other hmem
  rcases List.mem_append.1 hmem with hold | hnew
  · exact h q other hold
  · clear hmem
    cases hstep with
    | received | failed => cases hnew
    | unrefreshed | nothingLeft | refused => simp at hnew
    | resumed hpull hfirst hrefresh hrest hsend ht =>
      simp only [List.mem_cons, reduceCtorEq, Asked.sent.injEq, Except.ok.injEq, List.not_mem_nil,
        or_false, false_or] at hnew
      obtain ⟨rfl, rfl⟩ := hnew
      exact Upstream.answers_of_send hsend

end Reader

end Screened

/-- A media request takes a response exactly if that answers it, and makes a failure of its own
    class of any other. A stream hands on the bytes of such responses only, so none under a header
    that names other bytes than it asked for. -/
theorem media_responses_answer_their_requests :
    (∀ (p : Prepared) (wire : Http.Wire),
      p.send.run wire = match (Http.send p.draft).run wire with
        | (.ok r, after) => (p.accept wire.platform.decoders r, after)
        | (.error f, after) => (.error f, after)) ∧
    (∀ (decoders : Http.Decoders) (p : Prepared) (r : Http.Response),
      (∀ r', p.accept decoders r = .ok r' ↔ r' = r ∧ p.Answers r) ∧
      ∀ f, p.accept decoders r = .error f → p.Refused decoders r f) ∧
    ∀ decoders answer refresh file p r k,
      Reader.opened? (.screened decoders answer refresh) file p = some r →
      let reader := r.reads (.screened decoders answer refresh) k
      reader.delivered <+: reader.received ∧ reader.IsAnswered ∧
        ∀ q response range, .sent q (.ok response) ∈ reader.asked → q.range = some range →
          ∀ value a b, response.FirstHeader "Content-Range" value →
            Http.Response.IsText value → NamesBytes value a b →
              a = range.first ∧ b = range.last := by
  refine ⟨Prepared.send_run, fun decoders p r => ⟨fun r' => ?_, fun f hf => ?_⟩, ?_⟩
  · have hjudged := p.accept_judged decoders r
    constructor
    · intro h
      rwa [h] at hjudged
    · rintro ⟨rfl, hanswers⟩
      cases haccept : p.accept decoders r' with
      | ok other =>
        rw [haccept] at hjudged
        rw [hjudged.1]
      | error f =>
        rw [haccept] at hjudged
        exact absurd hanswers hjudged.not_answers
  · have hjudged := p.accept_judged decoders r
    rwa [hf] at hjudged
  · intro decoders answer refresh file p r k hopened reader
    have hanswered : reader.IsAnswered :=
      Reader.reads_of_step Reader.IsAnswered.step (Reader.isAnswered_of_opened? hopened) k
    have hkeeps := Reader.keeps_reads (u := .screened decoders answer refresh)
      (Reader.keeps_of_opened? hopened) k
    refine ⟨hkeeps.bytes ▸ List.prefix_append _ _, hanswered, ?_⟩
    intro q response range hmem hrange value a b hfirst htext hnames
    have hnamed := ((hanswered q response hmem).2 range hrange).named hfirst htext
    rw [← String.toList_ofList (l := value)] at hnamed hnames
    exact hnamed.unique hnames

/-- A header with blanks, a plus sign and leading zeros names the bytes asked for, and one byte fewer
    is refused. -/
theorem media_responses_answer_their_requests_among_blanks :
    let p : Prepared := ⟨"http://x/a", some ⟨1, 3, by decide⟩, 3⟩
    let r (value : String) : Http.Response :=
      ⟨206, [("Date", "today"), ("content-range", value), ("Content-Range", "none")], [[1, 2, 3]],
        false⟩
    let decoders : Http.Decoders := fun _ => none
    let answer : List Asked → Prepared → Except Failure Http.Response :=
      fun _ _ => .ok (r "bytes +1 - 03/x/y")
    let refresh : List Asked → CachedFile → Except Failure CachedFile :=
      fun _ dead => .ok dead
    let film : CachedFile := ⟨"a", 5, none, "http://x/a", .premiumize, 0, .empty⟩
    p.Answers (r "bytes +1 - 03/x/y") ∧ ¬ p.Answers (r "bytes 1-2/5") ∧
      ∃ reader, Reader.opened? (.screened decoders answer refresh) film p = some reader ∧
        (reader.reads (.screened decoders answer refresh) 2).delivered = [1, 2, 3] ∧
        (reader.reads (.screened decoders answer refresh) 2).IsAnswered := by
  intro p r decoders answer refresh film
  obtain ⟨-, hjudged, hstreams⟩ := media_responses_answer_their_requests
  have haccepted : p.accept decoders (r "bytes +1 - 03/x/y") = .ok (r "bytes +1 - 03/x/y") := rfl
  have hrefused : p.accept decoders (r "bytes 1-2/5") =
    .error (.parse (.contentRangeMismatch 1 3 "bytes 1-2/5")) := rfl
  refine ⟨(((hjudged decoders p _).1 _).1 haccepted).2, fun h => ?_, _, rfl, by decide, ?_⟩
  · have hok := ((hjudged decoders p _).1 _).2 ⟨rfl, h⟩
    rw [hrefused] at hok
    cases hok
  · exact (hstreams decoders answer refresh film p _ 2 rfl).2.1

end LinkRelay
