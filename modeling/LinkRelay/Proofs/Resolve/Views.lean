import LinkRelay.Proofs.Resolve.Calls
set_option autoImplicit false

/-!
# What a call sees of the world

A call to one provider over one client sees its circuit, its window, its counters, the client, and
the wire if the client talks over it. It changes nothing else, so calls to different providers do
not see each other. Two calls are twins when they do the same with answers that are the same but
for the moments at which files were listed.
-/

namespace LinkRelay

theorem Provider.name_injective {p p' : Provider} (h : p.name = p'.name) : p = p' := by
  have hread := p.ofName?_name
  rw [h, p'.ofName?_name] at hread
  exact (Option.some_inj.1 hread).symm

def Series.provider : Series → Provider
  | .breakerOpened p | .breakerSkipped p | .deadLink p | .linkRefreshed p _ | .outcome p _
  | .retried p | .heldBack p => p

def CachedFile.undated (f : CachedFile) : CachedFile := { f with lastChecked := 0 }

namespace Outcome

def undated : Outcome → Outcome
  | .cached files => .cached (files.map CachedFile.undated)
  | .notCached => .notCached
  | .failed trouble => .failed trouble

theorem undated_label (o : Outcome) : o.undated.label = o.label := by
  cases o <;> rfl

end Outcome

/-- An answer without the moments at which it came. -/
def Question.undated : (q : Question) → Except Failure q.Answer → Except Failure q.Answer
  | .files _, a => a.map (List.map CachedFile.undated)
  | .isCached _, a => a
  | .link .., a => a

namespace Client

def isWired : Client → Bool
  | .scripted _ => false
  | .premiumize _ | .easynews _ => true

theorem noted_isWired (c : Client) (q : Question) : (c.noted q).isWired = c.isWired := by
  cases c <;> rfl

theorem answer_isWired (c : Client) (moments : Nat → Time) (wire : Http.Wire) (q : Question) :
    (c.answer moments wire q).2.1.isWired = c.isWired := by
  cases q <;> cases c <;> rfl

theorem answer_wire {c : Client} (h : c.isWired = false) (moments : Nat → Time) (wire : Http.Wire)
    (q : Question) : (c.answer moments wire q).2.2 = wire := by
  cases c with
  | premiumize s | easynews s => cases h
  | scripted s => cases q <;> rfl

end Client

/-- Two talks that end with the wire alike, and with answers that are alike but for moments. -/
def SameTalk (s t : Http.OnWire (List CachedFile)) : Prop :=
  ∀ wire, (s.run wire).1.map (List.map CachedFile.undated) =
    (t.run wire).1.map (List.map CachedFile.undated) ∧ (s.run wire).2 = (t.run wire).2

theorem SameTalk.bind {α : Type} (s : Http.OnWire α) {f g : α → Http.OnWire (List CachedFile)}
    (h : ∀ a, SameTalk (f a) (g a)) : SameTalk (s >>= f) (s >>= g) := by
  intro wire
  rcases hrun : s.run wire with ⟨_ | a, wire'⟩
  · rw [Http.OnWire.bind_of_error hrun, Http.OnWire.bind_of_error hrun]
    exact ⟨rfl, rfl⟩
  · rw [Http.OnWire.bind_of_ok hrun, Http.OnWire.bind_of_ok hrun]
    exact h a wire'

theorem Premiumize.files_sameTalk (s : Premiumize) (moments moments' : Nat → Time) (key : Key) :
    SameTalk (s.files moments key) (s.files moments' key) := by
  cases key with
  | usenet release => exact fun _ => ⟨rfl, rfl⟩
  | torrent hash magnet =>
    refine SameTalk.bind (s.entries magnet) fun entries wire => ⟨?_, rfl⟩
    change Except.ok ((entries.mapIdx fun i e => fileOf (moments i) e).map CachedFile.undated) =
      Except.ok ((entries.mapIdx fun i e => fileOf (moments' i) e).map CachedFile.undated)
    rw [List.mapIdx_eq_zipIdx_map, List.mapIdx_eq_zipIdx_map, List.map_map, List.map_map]
    rfl

theorem Easynews.fileOf_undated (s : Easynews) (now now' : Time) (post : Easynews.Post)
    (found : Easynews.Found) :
    (s.fileOf now post found).map CachedFile.undated =
      (s.fileOf now' post found).map CachedFile.undated := by
  let path := post.filename ++ post.extension
  let file (now : Time) : CachedFile :=
    ⟨path, post.size, MediaType.ofPath? path, "", .easynews, now, paramsOf post found⟩
  have hfile (now : Time) : s.fileOf now post found =
      (s.downloadLink (file now)).map fun link => { file now with link } := by
    change (s.downloadLink (file now) >>= fun link => pure { file now with link }) = _
    cases s.downloadLink (file now) <;> rfl
  have hlink : s.downloadLink (file now) = s.downloadLink (file now') := rfl
  rw [hfile, hfile, hlink]
  cases s.downloadLink (file now') <;> rfl

theorem Easynews.files_sameTalk (s : Easynews) (now now' : Time) (key : Key) :
    SameTalk (s.files now key) (s.files now' key) := by
  cases key with
  | torrent hash magnet => exact fun _ => ⟨rfl, rfl⟩
  | usenet release =>
    refine SameTalk.bind (s.find release) fun found => ?_
    cases hposts : found.posts with
    | nil => exact fun _ => ⟨rfl, rfl⟩
    | cons post rest =>
      intro wire
      have hrun (now : Time) : ((do return [← s.fileOf now post found]) :
          Http.OnWire (List CachedFile)).run wire =
          ((s.fileOf now post found).map fun file => [file], wire) := by
        cases s.fileOf now post found <;> rfl
      have hundated := s.fileOf_undated now now' post found
      refine ⟨?_, by rw [hrun, hrun]⟩
      rw [hrun, hrun]
      cases h : s.fileOf now post found <;> cases h' : s.fileOf now' post found <;>
        rw [h, h'] at hundated <;> simp_all [Except.map]

theorem Client.answer_same (c : Client) (moments moments' : Nat → Time) {wire wire' : Http.Wire}
    (h : c.isWired = true → wire = wire') (q : Question) :
    q.undated (c.answer moments wire q).1 = q.undated (c.answer moments' wire' q).1 ∧
      (c.answer moments wire q).2.1 = (c.answer moments' wire' q).2.1 ∧
      (c.isWired = true → (c.answer moments wire q).2.2 = (c.answer moments' wire' q).2.2) := by
  cases c with
  | scripted s => cases q <;> exact ⟨rfl, rfl, nofun⟩
  | premiumize s =>
    obtain rfl := h rfl
    cases q with
    | isCached key | link key file => exact ⟨rfl, rfl, fun _ => rfl⟩
    | files key =>
      obtain ⟨hanswer, hwire⟩ := s.files_sameTalk moments moments' key wire
      exact ⟨hanswer, rfl, fun _ => hwire⟩
  | easynews s =>
    obtain rfl := h rfl
    cases q with
    | isCached key | link key file => exact ⟨rfl, rfl, fun _ => rfl⟩
    | files key =>
      obtain ⟨hanswer, hwire⟩ := s.files_sameTalk (moments 0) (moments' 0) key wire
      exact ⟨hanswer, rfl, fun _ => hwire⟩

namespace World

def wired (w : World) (client : Nat) : Bool := (w.clients[client]?).any Client.isWired

/-- Two worlds in which a call to a provider over a client sees the same, its window apart. -/
structure Sees (p : Provider) (client : Nat) (v w : World) : Prop where
  circuit : v.breaker.openUntil.get? p.name = w.breaker.openUntil.get? p.name
  counts {s : Series} (h : s.provider = p) : v.metrics.count s = w.metrics.count s
  state : v.clients[client]? = w.clients[client]?
  wire (h : w.wired client = true) : v.wire = w.wire

structure Spares (p : Provider) (client : Nat) (w w' : World) : Prop where
  clock : w'.clock = w.clock
  deadline : w'.deadline = w.deadline
  circuits {name : String} (h : name ≠ p.name) :
    w'.breaker.openUntil.get? name = w.breaker.openUntil.get? name
  sound : w'.limiter.Sound
  numbers {name : String} (h : name ≠ p.name) :
    w'.limiter.current.get? name = w.limiter.current.get? name
  windows {name : String} (h : name ≠ p.name) : w'.limiter.present name = w.limiter.present name
  counts {s : Series} (h : s.provider ≠ p) : w'.metrics.count s = w.metrics.count s
  clients {other : Nat} (h : other ≠ client) : w'.clients[other]? = w.clients[other]?
  wire (h : w.wired client = false) : w'.wire = w.wire
  wired (other : Nat) : w'.wired other = w.wired other

variable {p p' : Provider} {client client' : Nat} {v w w' : World}

theorem Sees.rfl : Sees p client w w :=
  ⟨Eq.refl _, fun _ => Eq.refl _, Eq.refl _, fun _ => Eq.refl _⟩

theorem Sees.frame (h : Sees p client v w) (hspares : Spares p' client' w w') (hp : p ≠ p')
    (hclient : client ≠ client') (hwire : w.wired client = false ∨ w.wired client' = false) :
    Sees p client v w' where
  circuit := h.circuit.trans (hspares.circuits fun hname => hp (Provider.name_injective hname)).symm
  counts hs := (h.counts hs).trans (hspares.counts (hs ▸ hp)).symm
  state := h.state.trans (hspares.clients hclient).symm
  wire hwired := by
    rw [hspares.wired] at hwired
    rcases hwire with hwire | hwire
    · rw [hwired] at hwire
      cases hwire
    · exact (h.wire hwired).trans (hspares.wire hwire).symm

theorem spares_rfl (h : w.limiter.Sound) : Spares p client w w where
  clock := Eq.refl _
  deadline := Eq.refl _
  circuits _ := Eq.refl _
  sound := h
  numbers _ := Eq.refl _
  windows _ := Eq.refl _
  counts _ := Eq.refl _
  clients _ := Eq.refl _
  wire _ := Eq.refl _
  wired _ := Eq.refl _

theorem spares_breaker (h : w.limiter.Sound) {breaker : Breaker}
    (hbreaker : ∀ name ≠ p.name, breaker.openUntil.get? name = w.breaker.openUntil.get? name) :
    Spares p client w { w with breaker } :=
  { spares_rfl h with circuits := fun hname => hbreaker _ hname }

theorem spares_check (h : w.limiter.Sound) :
    Spares p client w { w with breaker := (w.breaker.check p.name w.clock).2 } := by
  refine spares_breaker h fun name hname => ?_
  unfold Breaker.check
  split
  · exact Eq.refl _
  · exact (Dictionary.get?_erase ..).trans (if_neg hname)

theorem spares_trip (h : w.limiter.Sound) (ms : Nat) :
    Spares p client w { w with breaker := w.breaker.trip p.name ms w.clock } :=
  spares_breaker h fun _ hname => (Dictionary.get?_insert ..).trans (if_neg hname)

theorem spares_count (h : w.limiter.Sound) {s : Series} (hs : s.provider = p) :
    Spares p client w (w.count s) :=
  { spares_rfl h with
    counts := fun {s'} hs' => by
      have hne : s' ≠ s := fun heq => hs' (heq ▸ hs)
      exact (w.metrics.count_add s s').trans (by rw [if_neg hne, Nat.add_zero]) }

theorem spares_put (h : w.limiter.Sound) (window : Window) :
    Spares p client w { w with limiter := w.limiter.put p.name window } :=
  { spares_rfl h with
    sound := (h.put p.name window).sound
    numbers := fun hname => (h.put p.name window).numbers hname
    windows := fun hname => (h.put p.name window).others hname }

theorem spares_client {wire : Http.Wire} {calendar : Nat → Time} (h : w.limiter.Sound) {c c' : Client}
    (hc : w.clients[client]? = some c) (hwired : c'.isWired = c.isWired)
    (hwire : c.isWired = false → wire = w.wire) :
    Spares p client w { w with clients := w.clients.set client c', wire, calendar } :=
  { (spares_rfl h : Spares p client w w) with
    clients := fun hother => List.getElem?_set_ne (Ne.symm hother)
    wire := fun hfalse => hwire (by rw [wired, hc] at hfalse; exact hfalse)
    wired := fun other => by
      change ((w.clients.set client c')[other]?).any Client.isWired = _
      rw [wired, List.getElem?_set]
      split
      · rename_i heq
        subst heq
        rw [hc, if_pos (List.getElem?_eq_some_iff.1 hc).1]
        exact hwired
      · exact Eq.refl _ }

theorem spares_place (h : w.limiter.Sound) (q : Question) :
    Spares p client w (w.place client q).2 := by
  unfold place
  split
  · rename_i c hc
    exact spares_client h hc (c.noted_isWired q) fun _ => Eq.refl _
  · exact spares_rfl h

theorem spares_receive (h : w.limiter.Sound) (q : Question) :
    Spares p client w (w.receive client q).2 := by
  unfold receive
  split
  · rename_i c hc
    exact spares_client h hc (c.answer_isWired _ _ q) fun hfalse => c.answer_wire hfalse _ _ q
  · exact spares_rfl h

theorem Sees.check (h : Sees p client v w) (hclock : v.clock = w.clock) :
    (v.breaker.check p.name v.clock).1 = (w.breaker.check p.name w.clock).1 ∧
      Sees p client { v with breaker := (v.breaker.check p.name v.clock).2 }
        { w with breaker := (w.breaker.check p.name w.clock).2 } := by
  have hopen : v.breaker.isOpenAt p.name v.clock = w.breaker.isOpenAt p.name w.clock := by
    rw [Breaker.isOpenAt, Breaker.isOpenAt, h.circuit, hclock]
  unfold Breaker.check
  rw [hopen]
  split
  · exact ⟨Eq.refl _, { h with }⟩
  · refine ⟨Eq.refl _, { h with circuit := ?_ }⟩
    change (v.breaker.openUntil.erase p.name).get? p.name =
      (w.breaker.openUntil.erase p.name).get? p.name
    rw [Dictionary.get?_erase, Dictionary.get?_erase, if_pos (Eq.refl _), if_pos (Eq.refl _)]

theorem Sees.trip (h : Sees p client v w) (hclock : v.clock = w.clock) (ms : Nat) :
    Sees p client { v with breaker := v.breaker.trip p.name ms v.clock }
      { w with breaker := w.breaker.trip p.name ms w.clock } := by
  refine { h with circuit := ?_ }
  change (v.breaker.openUntil.insert p.name _).get? p.name =
    (w.breaker.openUntil.insert p.name _).get? p.name
  rw [Dictionary.get?_insert, Dictionary.get?_insert, hclock, if_pos (Eq.refl _),
    if_pos (Eq.refl _)]

theorem Sees.count (h : Sees p client v w) (s : Series) :
    Sees p client (v.count s) (w.count s) :=
  { h with
    counts := fun {s'} hs' => by
      change (v.metrics.add s).count s' = (w.metrics.add s).count s'
      rw [Metrics.count_add, Metrics.count_add, h.counts hs'] }

theorem Sees.clients {c : Client} {wire wire' : Http.Wire} {calendar calendar' : Nat → Time}
    (h : Sees p client v w) {old : Client} (hold : w.clients[client]? = some old)
    (hwired : c.isWired = old.isWired) (hwire : old.isWired = true → wire = wire') :
    Sees p client { v with clients := v.clients.set client c, wire, calendar }
      { w with clients := w.clients.set client c, wire := wire', calendar := calendar' } := by
  have hset (u : World) (hu : u.clients[client]? = some old) :
      (u.clients.set client c)[client]? = some c :=
    List.getElem?_set_self (List.getElem?_eq_some_iff.1 hu).1
  refine { h with state := ?_, wire := fun hset' => hwire ?_ }
  · exact (hset v (h.state.trans hold)).trans (hset w hold).symm
  · change ((w.clients.set client c)[client]?).any Client.isWired = true at hset'
    rw [hset w hold] at hset'
    exact hwired.symm.trans hset'

theorem Sees.place (h : Sees p client v w) (q : Question) :
    (v.place client q).1 = (w.place client q).1 ∧
      Sees p client (v.place client q).2 (w.place client q).2 := by
  unfold World.place
  rw [h.state]
  split
  · rename_i c hc
    refine ⟨Eq.refl _, h.clients hc (c.noted_isWired q) fun hwired => h.wire ?_⟩
    rw [wired, hc]
    exact hwired
  · exact ⟨Eq.refl _, h⟩

theorem Sees.receive (h : Sees p client v w) (q : Question) :
    q.undated (v.receive client q).1 = q.undated (w.receive client q).1 ∧
      Sees p client (v.receive client q).2 (w.receive client q).2 := by
  unfold World.receive
  rw [h.state]
  split
  · rename_i c hc
    have hwire : c.isWired = true → v.wire = w.wire := fun hwired => h.wire (by
      rw [wired, hc]
      exact hwired)
    obtain ⟨hanswer, hclient, hlater⟩ := c.answer_same v.calendar w.calendar hwire q
    refine ⟨hanswer, ?_⟩
    dsimp only [later]
    rw [hclient]
    exact h.clients hc (c.answer_isWired _ _ q) hlater
  · exact ⟨Eq.refl _, h⟩

end World

namespace Plan

variable {α β γ δ : Type} {p : Provider} {client : Nat}

/-- Two plans of a call to a provider over a client that do the same, whatever the moments are at
    which files are listed, and that come to results in a relation. -/
inductive Twin (p : Provider) (client : Nat) (R : α → β → Prop) : Plan α → Plan β → Prop
  | done {a : α} {b : β} (h : R a b) : Twin p client R (.done a) (.done b)
  | checkCircuit {k : Bool → Plan α} {k' : Bool → Plan β}
    (h : ∀ isOpen, Twin p client R (k isOpen) (k' isOpen)) :
    Twin p client R (.checkCircuit p k) (.checkCircuit p k')
  | openCircuit {ms : Nat} {k : Plan α} {k' : Plan β} (h : Twin p client R k k') :
    Twin p client R (.openCircuit p ms k) (.openCircuit p ms k')
  | count {s : Series} {k : Plan α} {k' : Plan β} (hs : s.provider = p)
    (h : Twin p client R k k') : Twin p client R (.count s k) (.count s k')
  | awaitTurn {k : Except Failure Nat → Plan α} {k' : Except Failure Nat → Plan β}
    (h : ∀ r, Twin p client R (k r) (k' r)) :
    Twin p client R (.awaitTurn p.name k) (.awaitTurn p.name k')
  | place {q : Question} {k : Nat → Plan α} {k' : Nat → Plan β}
    (h : ∀ delay, Twin p client R (k delay) (k' delay)) :
    Twin p client R (.place client q k) (.place client q k')
  | receive {q : Question} {k : Except Failure q.Answer → Plan α}
    {k' : Except Failure q.Answer → Plan β}
    (h : ∀ a b, q.undated a = q.undated b → Twin p client R (k a) (k' b)) :
    Twin p client R (.receive client q k) (.receive client q k')
  | pause {ms : Nat} {k : Plan α} {k' : Plan β} (h : Twin p client R k k') :
    Twin p client R (.pause ms k) (.pause ms k')

theorem Twin.bind {R : α → β → Prop} {S : γ → δ → Prop} {plan : Plan α} {plan' : Plan β}
    {f : α → Plan γ} {f' : β → Plan δ} (h : Twin p client R plan plan')
    (hf : ∀ a b, R a b → Twin p client S (f a) (f' b)) :
    Twin p client S (plan.bind f) (plan'.bind f') := by
  induction h with
  | done h => exact hf _ _ h
  | checkCircuit _ ih => exact .checkCircuit ih
  | openCircuit _ ih => exact .openCircuit ih
  | count hs _ ih => exact .count hs ih
  | awaitTurn _ ih => exact .awaitTurn ih
  | place _ ih => exact .place ih
  | receive _ ih => exact .receive ih
  | pause _ ih => exact .pause ih

end Plan

inductive Alike {α β : Type} (R : α → β → Prop) : Except Failure α → Except Failure β → Prop
  | ok {a : α} {b : β} (h : R a b) : Alike R (.ok a) (.ok b)
  | error (f : Failure) : Alike R (.error f) (.error f)

theorem alike_eq {α : Type} (r : Except Failure α) : Alike Eq r r := by
  cases r with
  | ok a => exact .ok rfl
  | error f => exact .error f

namespace Attempt

variable {α β γ δ : Type} {p : Provider} {client : Nat}

theorem twin_bind {R : α → β → Prop} {S : γ → δ → Prop} {x : Attempt α} {y : Attempt β}
    {f : α → Attempt γ} {g : β → Attempt δ} (h : Plan.Twin p client (Alike R) x.run y.run)
    (hf : ∀ a b, R a b → Plan.Twin p client (Alike S) (f a).run (g b).run) :
    Plan.Twin p client (Alike S) (x >>= f).run (y >>= g).run := by
  refine Plan.Twin.bind h fun r r' hr => ?_
  cases hr with
  | ok hab => exact hf _ _ hab
  | error f => exact .done (.error f)

theorem twin_awaitTurn (p : Provider) (client : Nat) :
    Plan.Twin p client (Alike Eq) (awaitTurn p).run (awaitTurn p).run := by
  refine twin_bind (R := Eq) (.awaitTurn fun r => .done (alike_eq r)) fun waited _ heq => ?_
  subst heq
  split
  · exact .count rfl (.done (.ok rfl))
  · exact .done (.ok rfl)

theorem twin_ask (client : Nat) (q : Question) {R : q.Answer → q.Answer → Prop}
    (h : ∀ a b, q.undated a = q.undated b → Alike R a b) :
    Plan.Twin p client (Alike R) (ask client q).run (ask client q).run :=
  .place fun _ => .pause (.receive fun a b hab => .done (h a b hab))

theorem alike_files (key : Key) {a b : Except Failure (List CachedFile)}
    (h : (Question.files key).undated a = (Question.files key).undated b) :
    Alike (fun a b => a.map CachedFile.undated = b.map CachedFile.undated) a b := by
  cases a <;> cases b <;> simp only [Question.undated, Except.map] at h
  · cases h
    exact .error _
  · cases h
  · cases h
  · exact .ok (Except.ok.inj h)

theorem twin_resolve (client : Nat) (p : Provider) (key : Key) :
    Plan.Twin p client (Alike fun a b => a.undated = b.undated) (resolve client p key).run
      (resolve client p key).run := by
  have hcached : Plan.Twin p client (Alike Eq) (ask client (.isCached key)).run
      (ask client (.isCached key)).run :=
    twin_ask client (.isCached key) fun a b hab => (show a = b from hab) ▸ alike_eq a
  refine twin_bind (twin_awaitTurn p client) fun _ _ _ => ?_
  refine twin_bind hcached fun isCached _ heq => ?_
  subst heq
  cases isCached with
  | false => exact .done (.ok rfl)
  | true =>
    refine twin_bind (twin_awaitTurn p client) fun _ _ _ => ?_
    have hlisted := twin_ask (p := p) client (.files key) fun _ _ => alike_files key
    refine twin_bind hlisted fun files files' hfiles => ?_
    have hempty : files.isEmpty = files'.isEmpty := by
      rw [← List.isEmpty_map, hfiles, List.isEmpty_map]
    rw [hempty]
    split
    · exact .done (.ok rfl)
    · exact .done (.ok (congrArg Outcome.cached hfiles))

end Attempt

namespace RetryPolicy

variable {policy : RetryPolicy} {p : Provider} {client : Nat}

abbrev AlikeResults : CallResult → CallResult → Prop := Alike fun a b => a.undated = b.undated

theorem twin_settled {outcome outcome' : Outcome} (h : outcome.undated = outcome'.undated) :
    Plan.Twin p client AlikeResults (.count (.outcome p outcome.label) (.done (.ok outcome)))
      (.count (.outcome p outcome'.label) (.done (.ok outcome'))) := by
  have hlabel : outcome.label = outcome'.label := by
    rw [← outcome.undated_label, h, outcome'.undated_label]
  rw [hlabel]
  exact .count rfl (.done (.ok h))

theorem twin_concede (policy : RetryPolicy) (p : Provider) (client : Nat) (f : Failure) :
    Plan.Twin p client AlikeResults (policy.concede p f) (policy.concede p f) := by
  unfold concede
  dsimp only
  split
  · exact .openCircuit (.count rfl (twin_settled rfl))
  · exact twin_settled rfl

theorem twin_settle {go go' : Failure → Plan CallResult}
    (h : ∀ f, Plan.Twin p client AlikeResults (go f) (go' f)) {r r' : CallResult}
    (hr : AlikeResults r r') :
    Plan.Twin p client AlikeResults (policy.settle p go r) (policy.settle p go' r') := by
  cases hr with
  | ok hab => exact twin_settled hab
  | error f =>
    rw [settle, settle]
    split
    · exact .done (.error f)
    · split
      · exact h f
      · exact policy.twin_concede p client f

theorem twin_attempts {attempt : Attempt Outcome}
    (h : Plan.Twin p client AlikeResults attempt.run attempt.run) (left : Nat) :
    Plan.Twin p client AlikeResults (policy.attempts p attempt left)
      (policy.attempts p attempt left) := by
  induction left with
  | zero => exact h.bind fun _ _ hr => twin_settle (policy.twin_concede p client) hr
  | succ left ih =>
    have hagain : Plan.Twin p client AlikeResults
        (.count (.retried p) (.pause policy.delayMs (policy.attempts p attempt left)))
        (.count (.retried p) (.pause policy.delayMs (policy.attempts p attempt left))) :=
      .count rfl (.pause ih)
    exact h.bind fun _ _ hr => twin_settle (fun _ => hagain) hr

theorem twin_resolveCall (policy : RetryPolicy) (key : Key) (client : Nat × Provider) :
    Plan.Twin client.2 client.1 AlikeResults (policy.resolveCall key client)
      (policy.resolveCall key client) := by
  refine .checkCircuit fun isOpen => ?_
  cases isOpen with
  | true => exact .count rfl (twin_settled rfl)
  | false => exact twin_attempts (Attempt.twin_resolve client.1 client.2 key) policy.retries

end RetryPolicy

end LinkRelay
