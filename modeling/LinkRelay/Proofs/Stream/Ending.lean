import LinkRelay.Proofs.Stream.Received
set_option autoImplicit false

/-!
# How a stream ends

A stream that has delivered all that it expects ends as its response does. If that ends, so does
the stream, and asks for nothing. If it breaks off there, the stream takes it for a failure as any
other: it has the link refreshed, and then fails to ask for the bytes that are left, as none are.
-/

namespace LinkRelay

namespace Prepared

def last (p : Prepared) (size : Nat) : Nat := (p.range.map (·.last)).getD (size - 1)

theorem expected_of_ofRange {file : CachedFile} {request : Option RangeRequest} {p : Prepared}
    (h : ofRange file request = .ok p) : p.expected = p.count file.size := by
  cases request with
  | none =>
    cases h
    rfl
  | some request =>
    rw [ofRange] at h
    cases hr : request.resolve file.size with
    | error f => rw [hr] at h; cases h
    | ok r =>
      rw [hr] at h
      cases h
      exact ofByteRange_expected file r

end Prepared

namespace LinkStream

variable {s : LinkStream} {p : Prepared} {fresh : CachedFile}

theorem pull_of_broken (hchunks : s.chunks = []) (hbroken : s.broken = true) :
    s.pull = (.error (.parse .response), { s with broken := false }) := by
  unfold pull
  rw [hchunks, if_pos hbroken]

theorem pull_of_end (hchunks : s.chunks = []) (hbroken : s.broken = false)
    (hexpected : s.expected ≤ s.offset) : s.pull = (.ok none, s) := by
  unfold pull
  rw [hchunks, if_neg (Bool.not_eq_true _ ▸ hbroken), if_pos hexpected]

theorem next_of_end {m : Type → Type} [Monad m] (supply : Supply m) (hchunks : s.chunks = [])
    (hbroken : s.broken = false) (hexpected : s.expected ≤ s.offset) :
    s.next supply = pure (.ok none, s) := by
  unfold next
  rw [pull_of_end hchunks hbroken hexpected]

theorem rest_of_end {size : Nat} (hrange : s.range = p.range) (hcount : p.count size ≤ s.offset)
    (hfresh : p.range = none → 0 < size ∧ fresh.size ≤ size)
    (hword : p.first + s.offset ≤ Text.maxU64) :
    s.rest fresh = .error (.range (.backwards (p.first + s.offset) (p.last fresh.size))) := by
  have hlt : p.last fresh.size < p.first + s.offset := by
    unfold Prepared.last Prepared.first Prepared.count at *
    cases hp : p.range with
    | none =>
      obtain ⟨hpositive, hle⟩ := hfresh hp
      rw [hp] at hcount
      change size ≤ s.offset at hcount
      change fresh.size - 1 < 0 + s.offset
      omega
    | some span =>
      have hspan := span.first_le_last
      rw [hp] at hcount
      change span.last - span.first + 1 ≤ s.offset at hcount
      change span.last < span.first + s.offset
      omega
  have hbetween : ByteRange.between (p.first + s.offset) (p.last fresh.size) =
      .error (.range (.backwards (p.first + s.offset) (p.last fresh.size))) := by
    rw [ByteRange.between, dif_neg (Nat.not_le.mpr hlt)]
  unfold rest
  rw [position_of_le hrange fun _ => hword, hrange]
  change (ByteRange.between (p.first + s.offset) (p.last fresh.size) >>= _) = _
  rw [hbetween]
  rfl

end LinkStream

namespace Reader

open LinkStream

variable {u : Upstream} {file : CachedFile} {p : Prepared} {r : Reader}

theorem refreshes_reads (h : r.refreshes = r.stream.refreshed.toNat) (k : Nat) :
    (r.reads u k).refreshes = (r.reads u k).stream.refreshed.toNat := by
  refine reads_of_step (P := fun r => r.refreshes = r.stream.refreshed.toNat) ?_ h k
  intro r answer new s hrefreshes hstep
  rw [refreshes, List.filter_append, List.length_append]
  exact hstep.refreshes hrefreshes

theorem reads_of_end (u : Upstream) (hchunks : r.stream.chunks = [])
    (hbroken : r.stream.broken = false) (hexpected : r.stream.expected ≤ r.stream.offset) (j : Nat) :
    r.reads u j = { r with answers := r.answers ++ List.replicate j (.ok none) } := by
  induction j with
  | zero => exact congrArg (Reader.mk · r.stream r.asked) (List.append_nil _).symm
  | succ j ih =>
    rw [reads, ih, read, next_of_end u.supply hchunks hbroken hexpected, List.replicate_succ',
      ← List.append_assoc]
    rfl

theorem ended_of_read (hend : (r.read u).answers = r.answers ++ [.ok none])
    (hasked : (r.read u).asked = r.asked) : r.stream.chunks = [] ∧ r.stream.broken = false := by
  obtain ⟨answer, new, s, hstep, hread⟩ := step_read u r
  rw [hread] at hend hasked
  have hnone : answer = .ok none := List.singleton_inj.mp (List.append_cancel_left hend)
  have hnew : new = [] := List.append_right_eq_self.mp hasked
  cases hstep with
  | received hpull =>
    cases hnone
    obtain ⟨hchunks, -⟩ := pull_none hpull
    refine ⟨hchunks, Bool.eq_false_iff.mpr fun hbroken => ?_⟩
    rw [pull_of_broken hchunks hbroken] at hpull
    cases hpull
  | failed | unrefreshed | nothingLeft | refused => cases hnone
  | resumed => cases hnew

theorem read_of_broken_again (hchunks : r.stream.chunks = []) (hbroken : r.stream.broken = true)
    (hrefreshed : r.stream.refreshed = true) :
    (r.read u).answers = r.answers ++ [.error (.parse .response)] ∧ (r.read u).asked = r.asked := by
  obtain ⟨answer, new, s, hstep, hread⟩ := step_read u r
  obtain ⟨rfl, rfl⟩ := hstep.of_refreshed hrefreshed
  rw [hread, pull_of_broken hchunks hbroken]
  exact ⟨rfl, List.append_nil _⟩

theorem read_of_broken (hchunks : r.stream.chunks = []) (hbroken : r.stream.broken = true)
    (hfirst : r.stream.refreshed = false) :
    ∃ answer more, (r.read u).answers = r.answers ++ [answer] ∧
      (r.read u).asked =
        r.asked ++ .refreshed r.stream.file (u.refresh r.asked r.stream.file) :: more ∧
      (∀ g, u.refresh r.asked r.stream.file = .error g → answer = .error g) ∧
      ∀ fresh g, u.refresh r.asked r.stream.file = .ok fresh → r.stream.rest fresh = .error g →
        answer = .error g ∧ more = [] := by
  obtain ⟨answer, new, s, hstep, hread⟩ := step_read u r
  have hbreak := pull_of_broken hchunks hbroken
  have hrest (fresh : CachedFile) :
      ({ r.stream with broken := false } : LinkStream).rest fresh = r.stream.rest fresh := rfl
  rw [hread]
  refine ⟨answer, new.tail, rfl, ?_⟩
  cases hstep with
  | received hpull => cases hbreak.symm.trans hpull
  | failed hpull hrefreshed =>
    cases hbreak.symm.trans hpull
    exact absurd (hfirst.symm.trans hrefreshed) Bool.false_ne_true
  | unrefreshed hpull _ hrefresh =>
    cases hbreak.symm.trans hpull
    dsimp only at hrefresh
    rw [hrefresh]
    exact ⟨rfl, fun _ hg => congrArg _ (Except.error.inj hg), fun _ _ hfresh => nomatch hfresh⟩
  | nothingLeft hpull _ hrefresh hnext =>
    cases hbreak.symm.trans hpull
    dsimp only at hrefresh
    rw [hrefresh]
    refine ⟨rfl, (fun _ hg => nomatch hg), fun fresh g hfresh hg => ⟨?_, rfl⟩⟩
    cases hfresh
    exact congrArg _ (Except.error.inj (hnext.symm.trans hg))
  | refused hpull _ hrefresh hnext | resumed hpull _ hrefresh hnext =>
    cases hbreak.symm.trans hpull
    dsimp only at hrefresh
    rw [hrefresh]
    refine ⟨rfl, (fun _ hg => nomatch hg), fun fresh g hfresh hg => ?_⟩
    cases hfresh
    cases (hrest _).symm.trans hnext |>.symm.trans hg

end Reader

/-- A stream that has delivered all that it expects answers the end, and asks for nothing, exactly
    if its response has ended; then it does so over any supply, and for ever. If the response
    breaks off there instead, the failure is answered once a fresh link was asked for before, and
    is met by asking for one otherwise. The answer is then the failure to get a fresh link, or that
    no range is left, unless the stream is of a whole file that has grown or has come to a position
    beyond 64 bits. -/
theorem stream_ends_as_its_response_does {u : Upstream} {file : CachedFile}
    {request : Option RangeRequest} {p : Prepared} {opened : Reader}
    (hp : Prepared.ofRange file request = .ok p) (hopen : Reader.opened? u file p = some opened)
    (k : Nat) (hall : p.expected ≤ (opened.reads u k).delivered.length) :
    let r := opened.reads u k
    ((r.read u).answers = r.answers ++ [.ok none] ∧ (r.read u).asked = r.asked ↔
      r.stream.chunks = [] ∧ r.stream.broken = false) ∧
    (r.stream.chunks = [] → r.stream.broken = false →
      (∀ (m : Type → Type) [Monad m] (supply : Supply m),
        r.stream.next supply = pure (.ok none, r.stream)) ∧
      ∀ j, r.reads u j = { r with answers := r.answers ++ List.replicate j (.ok none) }) ∧
    (r.stream.chunks = [] → r.stream.broken = true →
      (0 < r.refreshes → (r.read u).answers = r.answers ++ [.error (.parse .response)] ∧
        (r.read u).asked = r.asked) ∧
      (r.refreshes = 0 → ∃ answer more, (r.read u).answers = r.answers ++ [answer] ∧
        (r.read u).asked =
          r.asked ++ .refreshed r.stream.file (u.refresh r.asked r.stream.file) :: more ∧
        (∀ g, u.refresh r.asked r.stream.file = .error g → answer = .error g) ∧
        ∀ fresh, u.refresh r.asked r.stream.file = .ok fresh →
          (p.range = none → 0 < file.size ∧ fresh.size ≤ file.size) →
          p.first + r.delivered.length ≤ Text.maxU64 →
          answer = .error (.range
            (.backwards (p.first + r.delivered.length) (p.last fresh.size))) ∧ more = [])) := by
  intro r
  have hkeeps : r.Keeps p := Reader.keeps_reads (Reader.keeps_of_opened? hopen) k
  have hrefreshes : r.refreshes = r.stream.refreshed.toNat := by
    obtain ⟨response, -, rfl⟩ := Reader.opened?_eq_some hopen
    exact Reader.refreshes_reads rfl k
  have hend : r.stream.expected ≤ r.stream.offset := by
    rw [hkeeps.expected, hkeeps.offset]
    exact hall
  refine ⟨⟨fun h => Reader.ended_of_read h.1 h.2, ?_⟩, ?_, ?_⟩
  · rintro ⟨hchunks, hbroken⟩
    have hread := Reader.reads_of_end u hchunks hbroken hend 1
    change r.read u = _ at hread
    rw [hread]
    exact ⟨rfl, rfl⟩
  · intro hchunks hbroken
    exact ⟨fun m _ supply => LinkStream.next_of_end supply hchunks hbroken hend,
      Reader.reads_of_end u hchunks hbroken hend⟩
  · intro hchunks hbroken
    rw [hrefreshes]
    constructor
    · intro hasked
      cases hrefreshed : r.stream.refreshed with
      | false => rw [hrefreshed] at hasked; cases hasked
      | true => exact Reader.read_of_broken_again hchunks hbroken hrefreshed
    · intro hunasked
      have hfirst : r.stream.refreshed = false := Bool.toNat_eq_zero.mp hunasked
      obtain ⟨answer, more, hanswer, hasked, hfailure, hrest⟩ :=
        Reader.read_of_broken (u := u) hchunks hbroken hfirst
      refine ⟨answer, more, hanswer, hasked, hfailure, fun fresh hfresh hsize hword => ?_⟩
      have hcount : p.count file.size ≤ r.stream.offset := by
        rw [← Prepared.expected_of_ofRange hp, ← hkeeps.expected]
        exact hend
      rw [← hkeeps.offset] at hword ⊢
      exact hrest fresh _ hfresh (LinkStream.rest_of_end hkeeps.range hcount hsize hword)

/-- A film that arrives whole, in two chunks. Its stream ends, however often it is asked. -/
theorem stream_ends_as_its_response_does_of_film :
    let film : CachedFile := ⟨"/film", 3, none, "http://x/a", .premiumize, 0, .empty⟩
    let u : Upstream :=
      { send := fun _ p => p.accept (fun _ => none) ⟨200, [], [[10, 11], [12]], false⟩
        refresh := fun _ dead => .ok dead }
    ∃ p opened, Prepared.ofRange film none = .ok p ∧ Reader.opened? u film p = some opened ∧
      p.expected ≤ (opened.reads u 2).delivered.length ∧
      (opened.reads u 2).stream.chunks = [] ∧ (opened.reads u 2).stream.broken = false ∧
      ((opened.reads u 2).reads u 3).answers =
        (opened.reads u 2).answers ++ [.ok none, .ok none, .ok none] := by
  intro film u
  have hp : Prepared.ofRange film none = .ok ⟨"http://x/a", none, 3⟩ := rfl
  refine ⟨_, _, hp, rfl, by decide, rfl, rfl, ?_⟩
  obtain ⟨-, hend, -⟩ := stream_ends_as_its_response_does (u := u) hp rfl 2 (by decide)
  rw [(hend rfl rfl).2 3]
  rfl

/-- A film whose response breaks off after its last byte, as it does without a final chunk. All of
    it was delivered, and yet the link is refreshed, and the stream fails. -/
theorem stream_fails_after_its_last_byte :
    let film : CachedFile := ⟨"/film", 3, none, "http://x/a", .premiumize, 0, .empty⟩
    let u : Upstream :=
      { send := fun _ p => p.accept (fun _ => none) ⟨200, [], [[10, 11, 12]], true⟩
        refresh := fun _ dead => .ok { dead with link := "http://x/b" } }
    ∃ p opened, Prepared.ofRange film none = .ok p ∧ Reader.opened? u film p = some opened ∧
      (opened.reads u 1).delivered = [10, 11, 12] ∧ p.expected = 3 ∧
      (opened.reads u 2).refreshes = 1 ∧
      (opened.reads u 2).answers =
        [.ok (some [10, 11, 12]), .error (.range (.backwards 3 2))] := by
  intro film u
  exact ⟨_, _, rfl, rfl, by decide, rfl, by decide, rfl⟩

end LinkRelay
