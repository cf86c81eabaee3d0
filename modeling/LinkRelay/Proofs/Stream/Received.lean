import LinkRelay.Proofs.Stream.Delivery
set_option autoImplicit false

/-!
# What a stream receives

A stream hands on every byte of every response that it accepts, whatever the upstream sends. So it
keeps to the number of bytes it expects as long as its responses do, and no longer: what was
delivered and the chunks still to come are what was received, at every moment of every reading.
-/

namespace LinkRelay

def Asked.body : Asked → Bytes
  | .sent _ (.ok response) => response.chunks.flatten
  | _ => []

theorem Asked.flatten_body_of_resumed (dead fresh : CachedFile) (q : Prepared)
    (response : Http.Response) : ([Asked.refreshed dead (.ok fresh),
      .sent q (.ok response)].map body).flatten = response.chunks.flatten :=
  List.append_nil _

/-- An upstream whose responses bring at most as many bytes as they are asked for, and whose fresh
    links are for files of the same size. -/
structure Upstream.Measured (u : Upstream) : Prop where
  sends {asked : List Asked} {p : Prepared} {response : Http.Response}
    (h : u.send asked p = .ok response) : response.chunks.flatten.length ≤ p.expected
  refreshes {asked : List Asked} {dead fresh : CachedFile}
    (h : u.refresh asked dead = .ok fresh) : fresh.size = dead.size

namespace Reader

open LinkStream

def received (r : Reader) : Bytes := (r.asked.map Asked.body).flatten

variable {u : Upstream} {file : CachedFile} {p : Prepared} {r : Reader}
variable {answer : Except Failure (Option Bytes)} {new : List Asked} {s : LinkStream}

theorem received_append (answers : List (Except Failure (Option Bytes))) (s : LinkStream)
    (asked new : List Asked) :
    received ⟨answers, s, asked ++ new⟩ =
      (asked.map Asked.body).flatten ++ (new.map Asked.body).flatten := by
  rw [received, List.map_append, List.flatten_append]

/-- What holds of a reader at every moment: no byte is lost and none is made up. -/
structure Keeps (r : Reader) (p : Prepared) : Prop where
  range : r.stream.range = p.range
  expected : r.stream.expected = p.expected
  offset : r.stream.offset = r.delivered.length
  bytes : r.delivered ++ r.stream.chunks.flatten = r.received

theorem keeps_of_opened? (h : opened? u file p = some r) : r.Keeps p := by
  obtain ⟨response, -, rfl⟩ := opened?_eq_some h
  exact ⟨rfl, rfl, rfl, (List.append_nil _).symm⟩

theorem pull_keeps {t : LinkStream} (h : s.pull = (answer, t)) :
    t.range = s.range ∧ t.expected = s.expected ∧ t.file = s.file ∧
      t.offset = s.offset + (got answer).length ∧ got answer ++ t.chunks.flatten = s.chunks.flatten := by
  match answer with
  | .ok (some chunk) =>
    obtain ⟨chunks, hchunks, rfl⟩ := pull_some h
    exact ⟨rfl, rfl, rfl, rfl, by rw [hchunks]; rfl⟩
  | .ok none =>
    obtain ⟨-, -, rfl⟩ := pull_none h
    exact ⟨rfl, rfl, rfl, rfl, rfl⟩
  | .error f =>
    obtain ⟨-, rfl⟩ := pull_error h
    exact ⟨rfl, rfl, rfl, rfl, rfl⟩

/-- A read keeps count. A stream goes on only when nothing of its response is left, so that the
    next response follows what was delivered. -/
theorem Keeps.step (h : r.Keeps p) (hstep : Step u r answer new s) :
    Keeps ⟨r.answers ++ [answer], s, r.asked ++ new⟩ p := by
  suffices hread : s.range = r.stream.range ∧ s.expected = r.stream.expected ∧
      s.offset = r.stream.offset + (got answer).length ∧
      got answer ++ s.chunks.flatten =
        r.stream.chunks.flatten ++ (new.map Asked.body).flatten by
    obtain ⟨hrange, hexpected, hoffset, hbytes⟩ := hread
    refine ⟨hrange.trans h.range, hexpected.trans h.expected, ?_, ?_⟩
    · rw [delivered_append, List.length_append]
      exact hoffset.trans (congrArg (· + _) h.offset)
    · rw [delivered_append, received_append, List.append_assoc, hbytes, ← List.append_assoc]
      exact congrArg (· ++ _) h.bytes
  cases hstep with
  | received hpull | failed hpull | unrefreshed hpull | nothingLeft hpull | refused hpull =>
    obtain ⟨hrange, hexpected, -, hoffset, hbytes⟩ := pull_keeps hpull
    exact ⟨hrange, hexpected, hoffset, hbytes.trans (List.append_nil _).symm⟩
  | @resumed _ dead t fresh q response hpull _ _ _ _ ht =>
    obtain ⟨hchunks, rfl⟩ := pull_error hpull
    obtain ⟨hrange, hexpected, -, hoffset, hbytes⟩ :=
      pull_keeps (Prod.ext rfl rfl : t.pull = (t.pull.1, t.pull.2))
    rw [ht] at hrange hexpected hoffset hbytes ⊢
    refine ⟨hrange, hexpected, hoffset, hbytes.trans ?_⟩
    rw [hchunks, Asked.flatten_body_of_resumed]
    rfl

theorem keeps_reads (h : r.Keeps p) (k : Nat) : (r.reads u k).Keeps p :=
  reads_of_step Keeps.step h k

theorem reads_read (u : Upstream) (r : Reader) (k : Nat) :
    (r.read u).reads u k = r.reads u (k + 1) := by
  induction k with
  | zero => rfl
  | succ k ih => rw [reads, ih, ← reads]

theorem reads_reads (u : Upstream) (r : Reader) (j k : Nat) :
    (r.reads u j).reads u k = r.reads u (j + k) := by
  induction k with
  | zero => rfl
  | succ k ih => rw [reads, ih]; rfl

theorem delivered_reads (u : Upstream) (r : Reader) :
    (r.reads u r.stream.chunks.length).delivered = r.delivered ++ r.stream.chunks.flatten := by
  generalize hchunks : r.stream.chunks = chunks
  induction chunks generalizing r with
  | nil => exact (List.append_nil _).symm
  | cons chunk chunks ih =>
    have hpull : r.stream.pull = (.ok (some chunk), { r.stream with
        chunks := chunks, offset := r.stream.offset + chunk.length }) := by
      unfold LinkStream.pull
      rw [hchunks]
    have hread : r.read u = ⟨r.answers ++ [.ok (some chunk)], { r.stream with
        chunks := chunks, offset := r.stream.offset + chunk.length }, r.asked⟩ := by
      simp only [read, LinkStream.next, hpull]
      rfl
    rw [List.length_cons, ← reads_read, ih (r.read u) (by rw [hread]), hread, delivered_append,
      List.flatten_cons, List.append_assoc]
    rfl

theorem Keeps.of_end (h : r.Keeps p) (hend : (r.read u).answers = r.answers ++ [.ok none]) :
    p.expected ≤ r.delivered.length ∧ r.delivered = (r.read u).received := by
  obtain ⟨answer, new, s, hstep, hread⟩ := step_read u r
  rw [hread] at hend ⊢
  obtain rfl : answer = .ok none := List.singleton_inj.mp (List.append_cancel_left hend)
  have hafter := h.step hstep
  have hdelivered : delivered ⟨r.answers ++ [.ok none], s, r.asked ++ new⟩ = r.delivered := by
    rw [delivered_append]
    exact List.append_nil _
  have hbytes := hafter.bytes
  have hoffset := hafter.offset
  rw [hdelivered] at hbytes hoffset
  obtain ⟨hchunks, henough⟩ := hstep.at_end rfl
  rw [hchunks, List.flatten_nil, List.append_nil] at hbytes
  refine ⟨?_, hbytes⟩
  rw [← hafter.expected, ← hoffset]
  exact henough

/-- What holds of a reader of a measured upstream: the responses bring no more than was asked for,
    and the file keeps its size. -/
structure Fits (r : Reader) (p : Prepared) (size : Nat) : Prop where
  size : r.stream.file.size = size
  received : r.received.length ≤ p.expected

theorem fits_of_opened? (hu : u.Measured) (h : opened? u file p = some r) :
    r.Fits p file.size := by
  obtain ⟨response, hsend, rfl⟩ := opened?_eq_some h
  refine ⟨rfl, ?_⟩
  rw [received, List.map_singleton, List.flatten_singleton]
  exact hu.sends hsend

theorem Fits.step {size : Nat} (hp : p.Within size) (hu : u.Measured) (hkeeps : r.Keeps p)
    (h : r.Fits p size) (hstep : Step u r answer new s) :
    Fits ⟨r.answers ++ [answer], s, r.asked ++ new⟩ p size := by
  have hnone (hnew : (new.map Asked.body).flatten = []) :
      (Reader.received ⟨r.answers ++ [answer], s, r.asked ++ new⟩).length ≤ p.expected := by
    rw [received_append, hnew, List.append_nil]
    exact h.received
  cases hstep with
  | received hpull | failed hpull | unrefreshed hpull | nothingLeft hpull | refused hpull =>
    obtain ⟨-, -, hfile, -⟩ := pull_keeps hpull
    exact ⟨(congrArg CachedFile.size hfile).trans h.size, hnone rfl⟩
  | @resumed _ dead t fresh q response hpull _ hrefresh hrest hsend ht =>
    obtain ⟨hchunks, rfl⟩ := pull_error hpull
    have hsize : fresh.size = size := (hu.refreshes hrefresh).trans h.size
    obtain ⟨-, -, hfile, -⟩ := pull_keeps (Prod.ext rfl rfl : t.pull = (t.pull.1, t.pull.2))
    refine ⟨(congrArg CachedFile.size (hfile.trans (congrArg LinkStream.file ht))).trans hsize, ?_⟩
    have hdelivered : r.received.length = r.stream.offset := by
      rw [hkeeps.offset, ← hkeeps.bytes, hchunks, List.flatten_nil, List.append_nil]
    have hbody := hu.sends hsend
    have hoffset : r.stream.offset ≤ p.count fresh.size := by
      rw [← hdelivered, hsize, ← hp.expected]
      exact h.received
    obtain ⟨span, rfl, hfirst, hlast⟩ := rest_eq_ok hkeeps.range (hsize ▸ hp) hoffset hrest
    obtain ⟨-, hcount⟩ := Prepared.ofByteRange_span fresh span
    rw [Prepared.ofByteRange_expected, hcount, ByteRange.size] at hbody
    rw [received_append, Asked.flatten_body_of_resumed, List.length_append]
    have hexpected := hp.expected
    have hle := span.first_le_last
    rw [hsize] at hlast
    change r.received.length + response.chunks.flatten.length ≤ p.expected
    change span.first = p.first + r.stream.offset at hfirst
    omega

theorem fits_reads {size : Nat} (hp : p.Within size) (hu : u.Measured) (hkeeps : r.Keeps p)
    (h : r.Fits p size) (k : Nat) : (r.reads u k).Fits p size := by
  suffices hboth : (r.reads u k).Keeps p ∧ (r.reads u k).Fits p size from hboth.2
  exact reads_of_step (P := fun r => r.Keeps p ∧ r.Fits p size)
    (fun hboth hstep => ⟨hboth.1.step hstep, hboth.2.step hp hu hboth.1 hstep⟩) ⟨hkeeps, h⟩ k

end Reader

/-- Over any upstream, what a stream has delivered and the chunks still to come are what it has
    received, and it answers the end when all of that was delivered and is at least as much as it
    expects. So it never delivers more than it expects exactly if it never receives more; and if
    every response keeps to its request, and no fresh link is for a file of another size, it never
    does, and answers the end only after exactly the bytes that it expects. -/
theorem stream_delivers_what_it_receives {u : Upstream} {file : CachedFile} {p : Prepared}
    {opened : Reader} (hopen : Reader.opened? u file p = some opened) :
    (∀ k, let r := opened.reads u k
      r.stream.expected = p.expected ∧
      r.delivered ++ r.stream.chunks.flatten = r.received ∧
      ((r.read u).answers = r.answers ++ [.ok none] →
        p.expected ≤ r.delivered.length ∧ r.delivered = (r.read u).received)) ∧
    ((∀ k, (opened.reads u k).delivered.length ≤ p.expected) ↔
      ∀ k, (opened.reads u k).received.length ≤ p.expected) ∧
    ∀ request, 0 < file.size → Prepared.ofRange file request = .ok p → u.Measured →
      ∀ k, let r := opened.reads u k
        r.delivered.length ≤ p.expected ∧
        ((r.read u).answers = r.answers ++ [.ok none] → r.delivered.length = p.expected) := by
  have hkeeps (k : Nat) : (opened.reads u k).Keeps p :=
    Reader.keeps_reads (Reader.keeps_of_opened? hopen) k
  have hle (k : Nat) :
      (opened.reads u k).delivered.length ≤ (opened.reads u k).received.length := by
    rw [← (hkeeps k).bytes, List.length_append]
    exact Nat.le_add_right _ _
  refine ⟨fun k => ⟨(hkeeps k).expected, (hkeeps k).bytes, (hkeeps k).of_end⟩, ⟨?_, ?_⟩, ?_⟩
  · intro hdelivered k
    -- What was received by now is delivered later.
    have hlater := hdelivered (k + (opened.reads u k).stream.chunks.length)
    rwa [← Reader.reads_reads, Reader.delivered_reads, (hkeeps k).bytes] at hlater
  · exact fun hreceived k => Nat.le_trans (hle k) (hreceived k)
  · intro request hsize hp hu k
    have hfits := Reader.fits_reads (Prepared.within_of_ofRange hsize hp) hu
      (Reader.keeps_of_opened? hopen) (Reader.fits_of_opened? hu hopen)
    have hbound := Nat.le_trans (hle k) (hfits k).received
    exact ⟨hbound, fun hend => Nat.le_antisymm hbound ((hkeeps k).of_end hend).1⟩

/-- A film of which the first response breaks off after two bytes, and the next brings the rest. -/
theorem stream_delivers_what_it_receives_of_two :
    let film : CachedFile := ⟨"/film", 3, none, "http://x/a", .premiumize, 0, .empty⟩
    let content : Bytes := [10, 11, 12]
    let u : Upstream :=
      { send := fun _ p =>
          .ok ⟨206, [], [((content.drop p.first).take p.expected).take 2], p.range.isNone⟩
        refresh := fun _ dead => .ok { dead with link := "http://x/b" } }
    ∃ p opened, Prepared.ofRange film none = .ok p ∧ u.Measured ∧
      Reader.opened? u film p = some opened ∧ (opened.reads u 2).delivered = [10, 11, 12] ∧
      (opened.reads u 3).answers = (opened.reads u 2).answers ++ [.ok none] ∧
      (opened.reads u 2).delivered.length = p.expected := by
  intro film content u
  have hu : u.Measured := by
    constructor
    · intro asked p response h
      cases h
      rw [List.flatten_singleton, List.length_take, List.length_take]
      omega
    · intro asked dead fresh h
      cases h
      rfl
  have hp : Prepared.ofRange film none = .ok ⟨"http://x/a", none, 3⟩ := rfl
  obtain ⟨opened, hopen⟩ : ∃ opened, Reader.opened? u film ⟨"http://x/a", none, 3⟩ = some opened :=
    ⟨_, rfl⟩
  obtain ⟨-, -, hmeasured⟩ := stream_delivers_what_it_receives hopen
  have hend := (hmeasured none (by decide) hp hu 2).2
  cases hopen
  exact ⟨_, _, hp, hu, rfl, by decide, rfl, hend rfl⟩

/-- A film of three bytes whose link brings five. All of them are delivered, and then the end. -/
theorem stream_delivers_more_than_expected :
    let film : CachedFile := ⟨"/film", 3, none, "http://x/a", .premiumize, 0, .empty⟩
    let u : Upstream :=
      { send := fun _ p => p.accept (fun _ => none) ⟨200, [], [[10, 11], [12, 13, 14]], false⟩
        refresh := fun _ dead => .ok dead }
    ∃ p opened, Prepared.ofRange film none = .ok p ∧ Reader.opened? u film p = some opened ∧
      opened.stream.expected = 3 ∧ (opened.reads u 2).delivered = [10, 11, 12, 13, 14] ∧
      (opened.reads u 3).answers = (opened.reads u 2).answers ++ [.ok none] := by
  intro film u
  exact ⟨_, _, rfl, rfl, rfl, rfl, rfl⟩

end LinkRelay
