import LinkRelay.Stream.LinkStream
set_option autoImplicit false

/-!
# Readers of streams

A stream in the hands of a reader that asks for one chunk after another, over an upstream of any
behaviour. `step_read` lists what one read can come to; what is said of every reading is proved
from that list.
-/

namespace LinkRelay

inductive Asked where
  | sent (p : Prepared) (answer : Except Failure Http.Response)
  | refreshed (dead : CachedFile) (answer : Except Failure CachedFile)

def Asked.isRefresh : Asked → Bool
  | .sent .. => false
  | .refreshed .. => true

def Asked.failure? : Asked → Option Failure
  | .sent _ (.error f) | .refreshed _ (.error f) => some f
  | .sent _ (.ok _) | .refreshed _ (.ok _) => none

/-- An upstream. Each answer may depend on all that was asked and answered before. -/
structure Upstream where
  send : List Asked → Prepared → Except Failure Http.Response
  refresh : List Asked → CachedFile → Except Failure CachedFile

def Upstream.supply (u : Upstream) : Supply (StateM (List Asked)) where
  send p := ExceptT.mk fun asked => (u.send asked p, asked ++ [.sent p (u.send asked p)])
  refresh dead := ExceptT.mk fun asked =>
    (u.refresh asked dead, asked ++ [.refreshed dead (u.refresh asked dead)])

/-- A stream with what its reads answered and all that it asked of its supply. -/
structure Reader where
  answers : List (Except Failure (Option Bytes))
  stream : LinkStream
  asked : List Asked

namespace Reader

def chunk? : Except Failure (Option Bytes) → Option Bytes
  | .ok chunk => chunk
  | .error _ => none

def delivered (r : Reader) : Bytes := (r.answers.filterMap chunk?).flatten

def refreshes (r : Reader) : Nat := (r.asked.filter (·.isRefresh)).length

def opened? (u : Upstream) (file : CachedFile) (p : Prepared) : Option Reader :=
  match (LinkStream.start u.supply file p).run.run [] with
  | (.ok stream, asked) => some ⟨[], stream, asked⟩
  | (.error _, _) => none

def read (u : Upstream) (r : Reader) : Reader :=
  match (r.stream.next u.supply).run r.asked with
  | ((answer, stream), asked) => ⟨r.answers ++ [answer], stream, asked⟩

def reads (u : Upstream) (r : Reader) : Nat → Reader
  | 0 => r
  | k + 1 => (reads u r k).read u

/-- What a read comes to, as its answer, what it asked for and the stream it left: something from
    the response; a failure after the link was refreshed; or a failure that is answered by one
    attempt to go on with a fresh link. -/
inductive Step (u : Upstream) (r : Reader) :
    Except Failure (Option Bytes) → List Asked → LinkStream → Prop
  | received {chunk : Option Bytes} {s : LinkStream} (hpull : r.stream.pull = (.ok chunk, s)) :
    Step u r (.ok chunk) [] s
  | failed {f : Failure} {s : LinkStream} (hpull : r.stream.pull = (.error f, s))
    (hrefreshed : s.refreshed = true) : Step u r (.error f) [] s
  | unrefreshed {f g : Failure} {s : LinkStream} (hpull : r.stream.pull = (.error f, s))
    (hfirst : s.refreshed = false) (hrefresh : u.refresh r.asked s.file = .error g) :
    Step u r (.error g) [.refreshed s.file (.error g)] { s with refreshed := true }
  | nothingLeft {f g : Failure} {s : LinkStream} {fresh : CachedFile}
    (hpull : r.stream.pull = (.error f, s)) (hfirst : s.refreshed = false)
    (hrefresh : u.refresh r.asked s.file = .ok fresh) (hrest : s.rest fresh = .error g) :
    Step u r (.error g) [.refreshed s.file (.ok fresh)] { s with refreshed := true }
  | refused {f g : Failure} {s : LinkStream} {fresh : CachedFile} {p : Prepared}
    (hpull : r.stream.pull = (.error f, s)) (hfirst : s.refreshed = false)
    (hrefresh : u.refresh r.asked s.file = .ok fresh) (hrest : s.rest fresh = .ok p)
    (hsend : u.send (r.asked ++ [.refreshed s.file (.ok fresh)]) p = .error g) :
    Step u r (.error g) [.refreshed s.file (.ok fresh), .sent p (.error g)]
      { s with refreshed := true }
  | resumed {f : Failure} {s t : LinkStream} {fresh : CachedFile} {p : Prepared}
    {response : Http.Response} (hpull : r.stream.pull = (.error f, s))
    (hfirst : s.refreshed = false) (hrefresh : u.refresh r.asked s.file = .ok fresh)
    (hrest : s.rest fresh = .ok p)
    (hsend : u.send (r.asked ++ [.refreshed s.file (.ok fresh)]) p = .ok response)
    (ht : t = ({ s with refreshed := true } : LinkStream).switch fresh response) :
    Step u r t.pull.1 [.refreshed s.file (.ok fresh), .sent p (.ok response)] t.pull.2

theorem send_run (u : Upstream) (p : Prepared) (asked : List Asked) :
    (u.supply.send p).run.run asked = (u.send asked p, asked ++ [.sent p (u.send asked p)]) := rfl

theorem refresh_run (u : Upstream) (dead : CachedFile) (asked : List Asked) :
    (u.supply.refresh dead).run.run asked =
      (u.refresh asked dead, asked ++ [.refreshed dead (u.refresh asked dead)]) := rfl

theorem sendRest_run (u : Upstream) (s : LinkStream) (fresh : CachedFile) (asked : List Asked) :
    (do return s.switch fresh (← u.supply.send (← s.rest fresh)) :
        ExceptT Failure (StateM (List Asked)) LinkStream).run.run asked =
      match s.rest fresh with
      | .error g => (.error g, asked)
      | .ok p => match u.send asked p with
        | .error g => (.error g, asked ++ [.sent p (.error g)])
        | .ok response => (.ok (s.switch fresh response), asked ++ [.sent p (.ok response)]) := by
  cases s.rest fresh with
  | error g => rfl
  | ok p =>
    change ((do return s.switch fresh (← u.supply.send p) :
      ExceptT Failure (StateM (List Asked)) LinkStream).run.run asked) = _
    rw [ExceptT.run_bind, StateT.run_bind, send_run]
    dsimp only
    cases u.send asked p with
    | error g => rfl
    | ok response => rfl

theorem resume_run (u : Upstream) (s : LinkStream) (asked : List Asked) :
    (s.resume u.supply).run.run asked =
      match u.refresh asked s.file with
      | .error g => (.error g, asked ++ [.refreshed s.file (.error g)])
      | .ok fresh => (do return s.switch fresh (← u.supply.send (← s.rest fresh)) :
          ExceptT Failure (StateM (List Asked)) LinkStream).run.run
            (asked ++ [.refreshed s.file (.ok fresh)]) := by
  rw [LinkStream.resume, ExceptT.run_bind, StateT.run_bind, refresh_run]
  cases u.refresh asked s.file with
  | error g => rfl
  | ok fresh => rfl

theorem step_read (u : Upstream) (r : Reader) : ∃ answer new s,
    Step u r answer new s ∧ r.read u = ⟨r.answers ++ [answer], s, r.asked ++ new⟩ := by
  rcases hpull : r.stream.pull with ⟨answer, s⟩
  cases answer with
  | ok chunk =>
    refine ⟨_, _, _, .received hpull, ?_⟩
    simp only [read, LinkStream.next, hpull, List.append_nil]
    rfl
  | error f =>
    cases hrefreshed : s.refreshed with
    | true =>
      refine ⟨_, _, _, .failed hpull hrefreshed, ?_⟩
      simp only [read, LinkStream.next, hpull, hrefreshed, if_true, List.append_nil]
      rfl
    | false =>
      have hread : r.read u =
          match ((({ s with refreshed := true } : LinkStream).resume u.supply).run).run r.asked with
          | (.ok t, asked) => ⟨r.answers ++ [t.pull.1], t.pull.2, asked⟩
          | (.error g, asked) => ⟨r.answers ++ [.error g], { s with refreshed := true }, asked⟩ := by
        simp only [read, LinkStream.next, hpull, hrefreshed]
        rw [if_neg Bool.false_ne_true, StateT.run_bind]
        rcases (({ s with refreshed := true } : LinkStream).resume u.supply).run.run r.asked with
          ⟨_ | _, _⟩ <;> rfl
      have hrest (fresh : CachedFile) :
          ({ s with refreshed := true } : LinkStream).rest fresh = s.rest fresh := rfl
      rw [hread, resume_run]
      cases hrefresh : u.refresh r.asked s.file with
      | error g => exact ⟨_, _, _, .unrefreshed hpull hrefreshed hrefresh, rfl⟩
      | ok fresh =>
        dsimp only
        rw [sendRest_run, hrest]
        cases hp : s.rest fresh with
        | error g => exact ⟨_, _, _, .nothingLeft hpull hrefreshed hrefresh hp, rfl⟩
        | ok p =>
          dsimp only
          cases hsend : u.send (r.asked ++ [.refreshed s.file (.ok fresh)]) p with
          | error g =>
            refine ⟨_, _, _, .refused hpull hrefreshed hrefresh hp hsend, ?_⟩
            simp only [List.append_assoc, List.cons_append, List.nil_append]
          | ok response =>
            refine ⟨_, _, _, .resumed hpull hrefreshed hrefresh hp hsend rfl, ?_⟩
            simp only [List.append_assoc, List.cons_append, List.nil_append]

theorem reads_of_step {u : Upstream} {P : Reader → Prop}
    (hstep : ∀ {r answer new s}, P r → Step u r answer new s →
      P ⟨r.answers ++ [answer], s, r.asked ++ new⟩)
    {r : Reader} (h : P r) (k : Nat) : P (r.reads u k) := by
  induction k with
  | zero => exact h
  | succ k ih =>
    obtain ⟨answer, new, s, hread, heq⟩ := step_read u (r.reads u k)
    rw [reads, heq]
    exact hstep ih hread

theorem opened?_eq_some {u : Upstream} {file : CachedFile} {p : Prepared} {r : Reader}
    (h : opened? u file p = some r) : ∃ response, u.send [] p = .ok response ∧
      r = ⟨[], .ofResponse file p response, [.sent p (.ok response)]⟩ := by
  rw [opened?, LinkStream.start, ExceptT.run_bind, StateT.run_bind, send_run] at h
  cases hsend : u.send [] p with
  | error f => rw [hsend] at h; cases h
  | ok response => rw [hsend] at h; cases h; exact ⟨response, rfl, rfl⟩

end Reader
end LinkRelay
