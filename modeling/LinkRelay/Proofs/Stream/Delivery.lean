import LinkRelay.Proofs.Stream.Reader
set_option autoImplicit false

/-!
# What a stream delivers

Over an upstream that sends what it is asked for, a stream delivers the bytes of its request from
the first one on, each once and in order, also across the one time that it goes on with a fresh
link. `stream_delivers_slice` says so of every moment of every reading.
-/

namespace LinkRelay

namespace Prepared

def first (p : Prepared) : Nat := (p.range.map (·.first)).getD 0

def count (p : Prepared) (size : Nat) : Nat := (p.range.map (·.size)).getD size

def positions (p : Prepared) (size : Nat) : List Nat := List.range' p.first (p.count size)

def slice (p : Prepared) (content : Bytes) : Bytes :=
  (content.drop p.first).take (p.count content.length)

/-- A request that lies within a file and knows how many bytes it asks for. -/
structure Within (p : Prepared) (size : Nat) : Prop where
  bound : p.first + p.count size ≤ size
  positive : 0 < p.count size
  expected : p.expected = p.count size

theorem Within.slice_length {p : Prepared} {content : Bytes} (h : p.Within content.length) :
    (p.slice content).length = p.count content.length := by
  have hb := h.bound
  rw [slice, List.length_take, List.length_drop]
  omega

end Prepared

theorem ByteRange.between_eq_ok {first last : Nat} {r : ByteRange}
    (h : ByteRange.between first last = .ok r) : r.first = first ∧ r.last = last := by
  unfold ByteRange.between at h
  split at h
  · cases h
    exact ⟨rfl, rfl⟩
  · cases h

theorem RangeRequest.last_lt_of_resolve {request : RangeRequest} {size : Nat} {r : ByteRange}
    (h : request.resolve size = .ok r) : r.last < size := by
  unfold RangeRequest.resolve at h
  split at h
  · cases h
  · dsimp only at h
    split at h
    · split at h
      · cases h
      · split at h
        · cases h
        · have := ByteRange.between_eq_ok h
          omega
    · split at h
      · cases h
      · have hr := (ByteRange.between_eq_ok h).2
        split at hr <;> omega

namespace Prepared

theorem ofByteRange_range (file : CachedFile) (r : ByteRange) :
    (ofByteRange file r).range = if r.isFull file.size then none else some r := by
  unfold ofByteRange
  split <;> rfl

theorem ofByteRange_span (file : CachedFile) (r : ByteRange) :
    (ofByteRange file r).first = r.first ∧ (ofByteRange file r).count file.size = r.size := by
  rw [first, count, ofByteRange_range]
  by_cases h : r.isFull file.size
  · have hr := r.first_le_last
    simp only [ByteRange.isFull, Bool.and_eq_true, decide_eq_true_eq, beq_iff_eq] at h
    rw [if_pos (by simpa [ByteRange.isFull] using h), ByteRange.size]
    change 0 = _ ∧ file.size = _
    omega
  · rw [if_neg h]
    exact ⟨rfl, rfl⟩

theorem ofByteRange_expected (file : CachedFile) (r : ByteRange) :
    (ofByteRange file r).expected = (ofByteRange file r).count file.size := by
  unfold ofByteRange
  split <;> rfl

theorem ofByteRange_header (file : CachedFile) (r : ByteRange) (h : r.last < file.size) :
    (ofByteRange file r).rangeHeader = none ↔
      (ofByteRange file r).positions file.size = List.range file.size := by
  obtain ⟨hfirst, hcount⟩ := ofByteRange_span file r
  have hr := r.first_le_last
  rw [positions, hfirst, hcount, List.range_eq_range', List.range'_inj, rangeHeader,
    Option.map_eq_none_iff, ofByteRange_range, ByteRange.size]
  rw [ite_eq_left_iff]
  simp only [ByteRange.isFull, Bool.and_eq_true, decide_eq_true_eq, beq_iff_eq, reduceCtorEq, imp_false,
    Decidable.not_not]
  omega

theorem within_of_ofRange {file : CachedFile} {request : Option RangeRequest} {p : Prepared}
    (hsize : 0 < file.size) (h : ofRange file request = .ok p) : p.Within file.size := by
  cases request with
  | none =>
    cases h
    exact ⟨Nat.le_of_eq (Nat.zero_add _), hsize, rfl⟩
  | some request =>
    rw [ofRange] at h
    cases hr : request.resolve file.size with
    | error f => rw [hr] at h; cases h
    | ok r =>
      rw [hr] at h
      cases h
      have hlast := RangeRequest.last_lt_of_resolve hr
      have hle := r.first_le_last
      obtain ⟨hfirst, hcount⟩ := ofByteRange_span file r
      refine ⟨?_, ?_, ofByteRange_expected file r⟩
      · rw [hfirst, hcount, ByteRange.size]
        omega
      · rw [hcount, ByteRange.size]
        omega

theorem Within.end_eq {p : Prepared} {size : Nat} (h : p.Within size) :
    (p.range.map (·.last)).getD (size - 1) + 1 = p.first + p.count size := by
  obtain ⟨hbound, hpositive, -⟩ := h
  unfold first count at *
  cases hp : p.range with
  | none =>
    rw [hp] at hbound hpositive
    change size - 1 + 1 = 0 + size
    change 0 < size at hpositive
    omega
  | some r =>
    have hle := r.first_le_last
    change r.last + 1 = r.first + (r.last - r.first + 1)
    omega

end Prepared

/-- An upstream whose accepted responses break off early at worst, and whose fresh links are for
    files of the same size. -/
structure Upstream.Honest (u : Upstream) (content : Bytes) : Prop where
  sends {asked : List Asked} {p : Prepared} {response : Http.Response}
    (h : u.send asked p = .ok response) : response.chunks.flatten <+: p.slice content
  refreshes {asked : List Asked} {dead fresh : CachedFile}
    (h : u.refresh asked dead = .ok fresh) : fresh.size = dead.size

namespace LinkStream

variable {s : LinkStream} {fresh : CachedFile} {p q : Prepared} {size : Nat}

theorem position_of_le (hrange : s.range = p.range)
    (hword : fresh.size ≤ Text.maxU64 → p.first + s.offset ≤ Text.maxU64) :
    s.position fresh = p.first + s.offset := by
  unfold position
  rw [hrange]
  split
  · rename_i hsize
    exact Nat.mod_eq_of_lt (Nat.lt_succ_of_le (hword hsize))
  · rfl

theorem position_of_within (hrange : s.range = p.range) (hp : p.Within fresh.size)
    (hoffset : s.offset ≤ p.count fresh.size) : s.position fresh = p.first + s.offset := by
  have hbound := hp.bound
  exact position_of_le hrange fun hsize => by omega

theorem rest_eq_ok (hrange : s.range = p.range) (hp : p.Within fresh.size)
    (hoffset : s.offset ≤ p.count fresh.size) (h : s.rest fresh = .ok q) :
    ∃ r : ByteRange, q = .ofByteRange fresh r ∧
      r.first = p.first + s.offset ∧ r.last + 1 = p.first + p.count fresh.size := by
  simp only [rest, position_of_within hrange hp hoffset, hrange] at h
  cases hr : ByteRange.between (p.first + s.offset)
      ((p.range.map (·.last)).getD (fresh.size - 1)) with
  | error f => rw [hr] at h; cases h
  | ok r =>
    rw [hr] at h
    cases h
    obtain ⟨hfirst, hlast⟩ := ByteRange.between_eq_ok hr
    exact ⟨r, rfl, hfirst, by rw [hlast, hp.end_eq]⟩

theorem rest_positions (hrange : s.range = p.range) (hp : p.Within fresh.size)
    (hoffset : s.offset ≤ p.count fresh.size) (h : s.rest fresh = .ok q) :
    q.positions fresh.size = (p.positions fresh.size).drop s.offset ∧
      (q.rangeHeader = none ↔ q.positions fresh.size = List.range fresh.size) := by
  obtain ⟨r, rfl, hfirst, hlast⟩ := rest_eq_ok hrange hp hoffset h
  obtain ⟨hq, hcount⟩ := Prepared.ofByteRange_span fresh r
  have hbound := hp.bound
  have hle := r.first_le_last
  constructor
  · rw [Prepared.positions, Prepared.positions, hq, hcount, List.drop_range', hfirst,
      ByteRange.size, Nat.mul_one]
    congr 1
    omega
  · exact Prepared.ofByteRange_header fresh r (by omega)

theorem rest_slice {content : Bytes} (hrange : s.range = p.range)
    (hsize : fresh.size = content.length) (hp : p.Within fresh.size)
    (hoffset : s.offset ≤ p.count fresh.size) (h : s.rest fresh = .ok q) :
    q.slice content = (p.slice content).drop s.offset := by
  obtain ⟨r, rfl, hfirst, hlast⟩ := rest_eq_ok hrange hp hoffset h
  obtain ⟨hq, hcount⟩ := Prepared.ofByteRange_span fresh r
  have hle := r.first_le_last
  rw [Prepared.slice, Prepared.slice, List.drop_take, List.drop_drop, ← hsize, hq, hcount, hfirst,
    ByteRange.size]
  congr 1
  omega

theorem pull_some {t : LinkStream} {chunk : Bytes} (h : s.pull = (.ok (some chunk), t)) :
    ∃ chunks, s.chunks = chunk :: chunks ∧
      t = { s with chunks := chunks, offset := s.offset + chunk.length } := by
  unfold pull at h
  split at h
  · rename_i hchunks
    cases h
    exact ⟨_, hchunks, rfl⟩
  · split at h
    · cases h
    · split at h <;> cases h

theorem pull_none {t : LinkStream} (h : s.pull = (.ok none, t)) :
    s.chunks = [] ∧ s.expected ≤ s.offset ∧ t = s := by
  unfold pull at h
  split at h
  · cases h
  · rename_i hchunks
    split at h
    · cases h
    · split at h
      · cases h
        exact ⟨hchunks, ‹_›, rfl⟩
      · cases h

theorem pull_error {t : LinkStream} {f : Failure} (h : s.pull = (.error f, t)) :
    s.chunks = [] ∧ t = { s with broken := false } := by
  unfold pull at h
  split at h
  · cases h
  · rename_i hchunks
    split at h
    · cases h
      exact ⟨hchunks, rfl⟩
    · rename_i hbroken
      split at h
      · cases h
      · cases h
        rw [Bool.not_eq_true] at hbroken
        exact ⟨hchunks, by rw [← hbroken]⟩

def got (answer : Except Failure (Option Bytes)) : Bytes := (Reader.chunk? answer).getD []

/-- A stream that has delivered some bytes of a request: they and the chunks still to come are the
    first bytes that the request asks for. -/
structure Carries (s : LinkStream) (p : Prepared) (content delivered : Bytes) : Prop where
  range : s.range = p.range
  expected : s.expected = (p.slice content).length
  size : s.file.size = content.length
  offset : s.offset = delivered.length
  chunks : delivered ++ s.chunks.flatten <+: p.slice content

namespace Carries

variable {content delivered : Bytes}

theorem delivered_eq (h : s.Carries p content delivered) :
    delivered = (p.slice content).take s.offset := by
  have hprefix : delivered <+: p.slice content := (List.prefix_append _ _).trans h.chunks
  rw [h.offset]
  exact List.prefix_iff_eq_take.mp hprefix

theorem offset_le (h : s.Carries p content delivered) (hp : p.Within content.length) :
    s.offset ≤ p.count content.length := by
  rw [h.offset, ← hp.slice_length]
  exact ((List.prefix_append _ _).trans h.chunks).length_le

theorem pull {t : LinkStream} {answer : Except Failure (Option Bytes)}
    (h : s.Carries p content delivered) (hpull : s.pull = (answer, t)) :
    t.Carries p content (delivered ++ got answer) := by
  match answer with
  | .ok (some chunk) =>
    obtain ⟨chunks, hchunks, rfl⟩ := pull_some hpull
    have hprefix := h.chunks
    rw [hchunks, List.flatten_cons, ← List.append_assoc] at hprefix
    refine ⟨h.range, h.expected, h.size, ?_, hprefix⟩
    rw [List.length_append, ← h.offset]
    rfl
  | .ok none =>
    obtain ⟨-, -, rfl⟩ := pull_none hpull
    rwa [show got (.ok none) = [] from rfl, List.append_nil]
  | .error f =>
    obtain ⟨-, rfl⟩ := pull_error hpull
    rw [show got (.error f) = [] from rfl, List.append_nil]
    exact ⟨h.range, h.expected, h.size, h.offset, h.chunks⟩

theorem switch {response : Http.Response} (h : s.Carries p content delivered)
    (hsize : fresh.size = content.length) (hp : p.Within fresh.size) (hrest : s.rest fresh = .ok q)
    (hresponse : response.chunks.flatten <+: q.slice content) :
    (({ s with refreshed := true } : LinkStream).switch fresh response).Carries
      p content delivered := by
  refine ⟨h.range, h.expected, hsize, h.offset, ?_⟩
  have hoffset : s.offset ≤ p.count fresh.size := hsize ▸ h.offset_le (hsize ▸ hp)
  rw [rest_slice h.range hsize hp hoffset hrest] at hresponse
  have hjoin := List.take_append_drop s.offset (p.slice content)
  rw [← h.delivered_eq] at hjoin
  rw [← hjoin]
  exact (List.prefix_append_right_inj delivered).mpr hresponse

end Carries

end LinkStream

namespace Reader

open LinkStream

/-- What holds of a reader at every moment: the stream carries what was delivered, and a fresh link
    was asked for if the stream remembers it. -/
structure Carries (r : Reader) (p : Prepared) (content : Bytes) : Prop where
  stream : r.stream.Carries p content r.delivered
  refreshes : r.refreshes = r.stream.refreshed.toNat

variable {u : Upstream} {file : CachedFile} {p : Prepared} {content : Bytes} {r : Reader}
variable {answer : Except Failure (Option Bytes)} {new : List Asked} {s : LinkStream}

theorem delivered_append (answers : List (Except Failure (Option Bytes)))
    (answer : Except Failure (Option Bytes)) (s : LinkStream) (asked : List Asked) :
    delivered ⟨answers ++ [answer], s, asked⟩ = (answers.filterMap chunk?).flatten ++ got answer := by
  rw [delivered, List.filterMap_append, List.flatten_append]
  congr 1
  match answer with
  | .ok (some chunk) => exact List.append_nil chunk
  | .ok none => rfl
  | .error _ => rfl

theorem carries_of_opened? (hp : p.Within content.length) (hsize : file.size = content.length)
    (hu : u.Honest content) (h : opened? u file p = some r) : r.Carries p content := by
  obtain ⟨response, hsend, rfl⟩ := opened?_eq_some h
  refine ⟨⟨rfl, ?_, hsize, rfl, hu.sends hsend⟩, rfl⟩
  rw [hp.slice_length]
  exact hp.expected

theorem pull_refreshed {t : LinkStream} (h : s.pull = (answer, t)) : t.refreshed = s.refreshed := by
  match answer with
  | .ok (some chunk) => obtain ⟨_, -, rfl⟩ := pull_some h; rfl
  | .ok none => obtain ⟨-, -, rfl⟩ := pull_none h; rfl
  | .error f => obtain ⟨-, rfl⟩ := pull_error h; rfl

theorem Step.stream_carries (hp : p.Within content.length) (hu : u.Honest content)
    (h : r.stream.Carries p content r.delivered) (hstep : Step u r answer new s) :
    s.Carries p content (r.delivered ++ got answer) := by
  -- A response that breaks off delivers nothing, nor does an attempt to go on that fails.
  have hfailed {f : Failure} {t : LinkStream} (hpull : r.stream.pull = (.error f, t)) :
      t.Carries p content r.delivered := by
    have ht := h.pull hpull
    rwa [show got (.error f) = [] from rfl, List.append_nil] at ht
  have hgivenUp {f g : Failure} {t : LinkStream} (hpull : r.stream.pull = (.error f, t)) :
      ({ t with refreshed := true } : LinkStream).Carries p content
        (r.delivered ++ got (.error g)) := by
    rw [show got (.error g) = [] from rfl, List.append_nil]
    obtain ⟨hrange, hexpected, hsize, hoffset, hchunks⟩ := hfailed hpull
    exact ⟨hrange, hexpected, hsize, hoffset, hchunks⟩
  cases hstep with
  | received hpull => exact h.pull hpull
  | failed hpull => exact h.pull hpull
  | unrefreshed hpull => exact hgivenUp hpull
  | nothingLeft hpull => exact hgivenUp hpull
  | refused hpull => exact hgivenUp hpull
  | resumed hpull _ hrefresh hrest hsend ht =>
    have hdead := hfailed hpull
    have hsize := (hu.refreshes hrefresh).trans hdead.size
    subst ht
    exact (hdead.switch hsize (hsize ▸ hp) hrest (hu.sends hsend)).pull rfl

theorem Step.refreshes (h : r.refreshes = r.stream.refreshed.toNat)
    (hstep : Step u r answer new s) :
    r.refreshes + (new.filter (·.isRefresh)).length = s.refreshed.toNat := by
  rw [h]
  cases hstep with
  | received hpull => rw [pull_refreshed hpull]; rfl
  | failed hpull => rw [pull_refreshed hpull]; rfl
  | unrefreshed hpull hfirst => rw [← pull_refreshed hpull, hfirst]; rfl
  | nothingLeft hpull hfirst => rw [← pull_refreshed hpull, hfirst]; rfl
  | refused hpull hfirst => rw [← pull_refreshed hpull, hfirst]; rfl
  | @resumed _ _ t _ _ _ hpull hfirst _ _ _ ht =>
    have hswitched := pull_refreshed (Prod.ext rfl rfl : t.pull = (t.pull.1, t.pull.2))
    rw [← pull_refreshed hpull, hfirst, hswitched, ht]
    rfl

theorem Carries.step (hp : p.Within content.length) (hu : u.Honest content)
    (h : r.Carries p content) (hstep : Step u r answer new s) :
    Carries ⟨r.answers ++ [answer], s, r.asked ++ new⟩ p content := by
  constructor
  · rw [delivered_append]
    exact hstep.stream_carries hp hu h.stream
  · rw [Reader.refreshes, List.filter_append, List.length_append]
    exact hstep.refreshes h.refreshes

theorem carries_reads (hp : p.Within content.length) (hu : u.Honest content)
    (h : r.Carries p content) (k : Nat) : (r.reads u k).Carries p content :=
  reads_of_step (Carries.step hp hu) h k

theorem Step.at_end (hstep : Step u r answer new s) (h : answer = .ok none) :
    s.chunks = [] ∧ s.expected ≤ s.offset := by
  cases hstep with
  | received hpull =>
    cases h
    obtain ⟨hchunks, hend, rfl⟩ := pull_none hpull
    exact ⟨hchunks, hend⟩
  | @resumed _ _ t =>
    have hpull : t.pull = (.ok none, t.pull.2) := Prod.ext h rfl
    obtain ⟨hchunks, hend, hs⟩ := pull_none hpull
    rw [hs]
    exact ⟨hchunks, hend⟩
  | failed | unrefreshed | nothingLeft | refused => cases h

theorem Step.delivered_of_end (hp : p.Within content.length) (hu : u.Honest content)
    (h : r.stream.Carries p content r.delivered) (hstep : Step u r answer new s)
    (hend : answer = .ok none) : r.delivered = p.slice content := by
  have hs := hstep.stream_carries hp hu h
  obtain ⟨-, hlength⟩ := hstep.at_end hend
  rw [hend, show got (.ok none) = [] from rfl, List.append_nil] at hs
  rw [hs.expected] at hlength
  rw [hs.delivered_eq, List.take_of_length_le hlength]

theorem Step.sent_positions (hu : u.Honest content) (hp : p.Within content.length)
    (h : r.stream.Carries p content r.delivered) (hstep : Step u r answer new s) {q : Prepared}
    {a : Except Failure Http.Response} (hq : .sent q a ∈ new) :
    q.positions content.length = (p.positions content.length).drop r.stream.offset ∧
      (q.rangeHeader = none ↔ q.positions content.length = List.range content.length) := by
  have hrest {f : Failure} {t : LinkStream} {fresh : CachedFile}
      (hpull : r.stream.pull = (.error f, t)) (hrefresh : u.refresh r.asked t.file = .ok fresh)
      (hrest : t.rest fresh = .ok q) := by
    obtain ⟨-, rfl⟩ := pull_error hpull
    have hsize : fresh.size = content.length := (hu.refreshes hrefresh).trans h.size
    have hoffset : r.stream.offset ≤ p.count fresh.size := hsize ▸ h.offset_le hp
    exact hsize ▸ rest_positions h.range (hsize ▸ hp) hoffset hrest
  cases hstep with
  | refused hpull _ hrefresh hnext =>
    simp only [List.mem_cons, List.not_mem_nil, or_false, reduceCtorEq, false_or,
      Asked.sent.injEq] at hq
    obtain ⟨rfl, -⟩ := hq
    exact hrest hpull hrefresh hnext
  | resumed hpull _ hrefresh hnext =>
    simp only [List.mem_cons, List.not_mem_nil, or_false, reduceCtorEq, false_or,
      Asked.sent.injEq] at hq
    obtain ⟨rfl, -⟩ := hq
    exact hrest hpull hrefresh hnext
  | received | failed | unrefreshed | nothingLeft => simp at hq

theorem Step.of_refreshed (h : r.stream.refreshed = true) (hstep : Step u r answer new s) :
    new = [] ∧ answer = r.stream.pull.1 := by
  have hfirst {a : Except Failure (Option Bytes)} {t : LinkStream} (hpull : r.stream.pull = (a, t)) :
      t.refreshed ≠ false := by
    rw [pull_refreshed hpull, h]
    exact Bool.noConfusion
  cases hstep with
  | received hpull => rw [hpull]; exact ⟨rfl, rfl⟩
  | failed hpull => rw [hpull]; exact ⟨rfl, rfl⟩
  | unrefreshed hpull hf => exact absurd hf (hfirst hpull)
  | nothingLeft hpull hf => exact absurd hf (hfirst hpull)
  | refused hpull hf => exact absurd hf (hfirst hpull)
  | resumed hpull hf => exact absurd hf (hfirst hpull)

theorem Step.failure (hstep : Step u r answer new s) {a : Asked} (ha : a ∈ new) {g : Failure}
    (hg : a.failure? = some g) : answer = .error g := by
  cases hstep with
  | received | failed => cases ha
  | unrefreshed =>
    rw [List.mem_singleton.mp ha] at hg
    cases hg
    rfl
  | nothingLeft =>
    rw [List.mem_singleton.mp ha] at hg
    cases hg
  | refused =>
    simp only [List.mem_cons, List.not_mem_nil, or_false] at ha
    rcases ha with rfl | rfl
    · cases hg
    · cases hg
      rfl
  | resumed =>
    simp only [List.mem_cons, List.not_mem_nil, or_false] at ha
    rcases ha with rfl | rfl <;> cases hg

theorem Step.attempt (hp : p.Within content.length) (hu : u.Honest content)
    (h : r.stream.Carries p content r.delivered) (hstep : Step u r answer new s) (hnew : new ≠ []) :
    (∃ g, answer = .error g) ∨ ∃ q response chunk, .sent q (.ok response) ∈ new ∧
      response.chunks.head? = some chunk ∧ answer = .ok (some chunk) := by
  cases hstep with
  | received | failed => exact absurd rfl hnew
  | unrefreshed | nothingLeft | refused => exact .inl ⟨_, rfl⟩
  | @resumed _ dead t fresh q response hpull _ hrefresh hrest _ ht =>
    rcases hanswer : t.pull with ⟨_ | _ | chunk, t'⟩
    · exact .inl ⟨_, rfl⟩
    · -- The request for the rest asks for a byte, so its response cannot be at the end.
      exfalso
      obtain ⟨-, hend, -⟩ := pull_none hanswer
      obtain ⟨-, rfl⟩ := pull_error hpull
      have hsize : fresh.size = content.length := (hu.refreshes hrefresh).trans h.size
      have hoffset : r.stream.offset ≤ p.count fresh.size := hsize ▸ h.offset_le hp
      obtain ⟨rest, -, hfirst, hlast⟩ := rest_eq_ok h.range (hsize ▸ hp) hoffset hrest
      have hexpected := h.expected
      rw [hp.slice_length] at hexpected
      have hle := rest.first_le_last
      rw [ht] at hend
      change r.stream.expected ≤ r.stream.offset at hend
      rw [hsize] at hlast
      change rest.first = p.first + r.stream.offset at hfirst
      omega
    · obtain ⟨chunks, hchunks, -⟩ := pull_some hanswer
      rw [ht] at hchunks
      refine .inr ⟨q, response, chunk, by simp, ?_, rfl⟩
      rw [show response.chunks = chunk :: chunks from hchunks, List.head?_cons]

end Reader

/-- At every moment of every reading of a stream, what was delivered is the first bytes of what was
    asked for, as many as the stream counts, and a fresh link was asked for at most once. The next
    read answers the end only when all bytes were delivered; what it sends asks for exactly the
    bytes that were not, without a header only for a whole file; and a failure that it meets after
    a fresh link was asked for is its answer. -/
theorem stream_delivers_slice {u : Upstream} {content : Bytes} {file : CachedFile}
    {request : Option RangeRequest} {p : Prepared} {opened : Reader} (hcontent : content ≠ [])
    (hsize : content.length = file.size) (hp : Prepared.ofRange file request = .ok p)
    (hu : u.Honest content) (hopen : Reader.opened? u file p = some opened) (k : Nat) :
    let r := opened.reads u k
    r.delivered = (p.slice content).take r.stream.offset ∧
    r.delivered.length = r.stream.offset ∧
    r.refreshes ≤ 1 ∧
    ∃ answer new,
      (r.read u).answers = r.answers ++ [answer] ∧ (r.read u).asked = r.asked ++ new ∧
      (answer = .ok none → r.delivered = p.slice content) ∧
      (∀ q a, .sent q a ∈ new →
        q.positions file.size = (p.positions file.size).drop r.stream.offset ∧
        (q.rangeHeader = none ↔ q.positions file.size = List.range file.size)) ∧
      (0 < r.refreshes → new = [] ∧ answer = r.stream.pull.1) ∧
      (∀ a ∈ new, ∀ g, a.failure? = some g → answer = .error g) ∧
      (new ≠ [] → (∃ g, answer = .error g) ∨ ∃ q response chunk, .sent q (.ok response) ∈ new ∧
        response.chunks.head? = some chunk ∧ answer = .ok (some chunk)) := by
  intro r
  have hpositive : 0 < file.size := hsize ▸ List.length_pos_iff.mpr hcontent
  have hwithin : p.Within content.length := hsize ▸ Prepared.within_of_ofRange hpositive hp
  have hr : r.Carries p content :=
    Reader.carries_reads hwithin hu (Reader.carries_of_opened? hwithin hsize.symm hu hopen) k
  refine ⟨hr.stream.delivered_eq, hr.stream.offset.symm, ?_, ?_⟩
  · rw [hr.refreshes]
    exact Bool.toNat_le _
  · obtain ⟨answer, new, s, hstep, hread⟩ := Reader.step_read u r
    refine ⟨answer, new, by rw [hread], by rw [hread], ?_, ?_, ?_, ?_, ?_⟩
    · exact hstep.delivered_of_end hwithin hu hr.stream
    · intro q a hq
      rw [← hsize]
      exact hstep.sent_positions hu hwithin hr.stream hq
    · intro hasked
      apply hstep.of_refreshed
      rw [hr.refreshes] at hasked
      cases hrefreshed : r.stream.refreshed with
      | true => rfl
      | false => rw [hrefreshed] at hasked; cases hasked
    · exact fun a ha g hg => hstep.failure ha hg
    · exact hstep.attempt hwithin hu hr.stream

/-- A range of a film whose responses break off after two bytes. It arrives with one fresh link,
    and the break after the last byte is the reader's to see. -/
theorem stream_delivers_slice_of_broken :
    let content : Bytes := [10, 11, 12, 13, 14, 15]
    let film : CachedFile := ⟨"/film", 6, none, "http://x/a", .premiumize, 0, .empty⟩
    let request : Option RangeRequest := some ⟨some 1, some 4⟩
    let u : Upstream :=
      { send := fun _ p => .ok ⟨206, [], [(p.slice content).take 2], true⟩
        refresh := fun _ dead => .ok { dead with link := "http://x/b" } }
    ∃ p opened, Prepared.ofRange film request = .ok p ∧ u.Honest content ∧
      Reader.opened? u film p = some opened ∧
      (opened.reads u 2).delivered = [11, 12, 13, 14] ∧ (opened.reads u 2).refreshes = 1 ∧
      (opened.reads u 2).stream.offset = 4 ∧
      (opened.reads u 2).delivered = (p.slice content).take (opened.reads u 2).stream.offset := by
  intro content film request u
  have hu : u.Honest content := by
    constructor
    · intro asked p response h
      cases h
      rw [List.flatten_singleton]
      exact List.take_prefix 2 (p.slice content)
    · intro asked dead fresh h
      cases h
      rfl
  have hp : Prepared.ofRange film request = .ok ⟨"http://x/a", some ⟨1, 4, by decide⟩, 4⟩ := rfl
  refine ⟨_, _, hp, hu, rfl, by decide, by decide, by decide, ?_⟩
  exact (stream_delivers_slice (by decide) rfl hp hu rfl 2).1

end LinkRelay
