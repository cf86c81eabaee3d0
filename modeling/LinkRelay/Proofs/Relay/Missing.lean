import LinkRelay.Proofs.Relay.Deletion
import LinkRelay.Proofs.Resolve.Testimony
import LinkRelay.Proofs.Stream.Delivery
set_option autoImplicit false

/-!
# Files that are recorded as missing

A provider is recorded as one that lacks a file when its client was called and did not have it, and
also when nobody was asked: its circuit was open, or no client of it serves the key. Every write of
such a record can be traced to one of the three.
-/

namespace LinkRelay

/-- What an operation of a relay does to its providers and its records. -/
inductive Effect where
  | ran (w : World) (r : Request) (c : Chronicle)
  | unserved (key : Key) (p : Provider)
  | wrote (path : String) (p : Provider) (outcome : FileOutcome) (now : Time)

def Effect.apply (s : Store) : Effect → Store
  | .wrote path p outcome now => (s.upsertAt path p outcome now).2
  | .ran .. | .unserved .. => s

/-- The effects that lead from one world to another, the latest first. Beside them the calendar is
    read, series are counted, and links are talked over. -/
inductive Effects (policy : RetryPolicy) (w₀ : World) : List Effect → World → Prop
  | nil : Effects policy w₀ [] w₀
  | readWall {log : List Effect} {w : World} (h : Effects policy w₀ log w) :
    Effects policy w₀ log w.readWall.2
  | count {log : List Effect} {w : World} (h : Effects policy w₀ log w) (s : Series) :
    Effects policy w₀ log (w.count s)
  | talk {α : Type} {log : List Effect} {w : World} (h : Effects policy w₀ log w)
    (t : Http.OnWire α) : Effects policy w₀ log { w with wire := (t.run w.wire).2 }
  | ran {log : List Effect} {w : World} (h : Effects policy w₀ log w) {r : Request} {c : Chronicle}
    (hrun : (Chronicle.opened w).Run policy c) {enough : List (Finish CallResult) → Bool}
    {collects : Bool} {fuel : Nat}
    (hhall : c.hall = ⟨((Machine.start w ((r.clients w).map (r.plan policy ·))).run
      enough collects fuel).2, [r.alone w]⟩) (ending : Machine.Ending) :
    Effects policy w₀ (.ran w r c :: log) (c.hall.machine.close ending)
  | unserved {log : List Effect} {w : World} (h : Effects policy w₀ log w) {key : Key}
    {p : Provider} (hnone : w.clientOf? key p = none) :
    Effects policy w₀ (.unserved key p :: log) w
  | wrote {log : List Effect} {w : World} (h : Effects policy w₀ log w) (path : String)
    (p : Provider) (outcome : FileOutcome) :
    Effects policy w₀ (.wrote path p outcome w.wall :: log)
      { w.readWall.2 with store := (w.store.upsertAt path p outcome w.wall).2 }

/-- Why a provider is said to lack the file that is looked for under a path of its own. -/
inductive Reason (log : List Effect) (key : Key) (p : Provider) (remote : String) : Prop
  | answered {w : World} {r : Request} {c : Chronicle} {task client : Nat}
    (h : .ran w r c ∈ log) (htask : (r.clients w)[task]? = some (client, p))
    (hserves : (client, p) ∈ w.clientsFor key.kind) (hkey : (r.call p).key = key)
    (hlacks : Lacks client (c.trace task) remote (r.call p))
  | skipped {w : World} {r : Request} {c : Chronicle} {task client : Nat}
    (h : .ran w r c ∈ log) (htask : (r.clients w)[task]? = some (client, p))
    (hkey : (r.call p).key = key) (hopen : .checked p true ∈ c.trace task)
    (hquiet : ∀ n q, .asked n q ∉ c.trace task)
  | unserved (h : .unserved key p ∈ log)

/-- Whether each write of a missing file has a reason among the effects before it, where `seeks`
    says under which paths of the providers a virtual file is looked for. -/
def Reasoned (key : Key) (seeks : String → String → Prop) (log : List Effect) : Prop :=
  ∀ later path p now earlier, log = later ++ .wrote path p .missing now :: earlier →
    ∃ remote, seeks path remote ∧ Reason earlier key p remote

section Effects

variable {policy : RetryPolicy} {w₀ w : World} {log log' : List Effect} {key : Key}
variable {seeks : String → String → Prop} {p : Provider} {remote : String}

theorem Effects.store_eq (h : Effects policy w₀ log w) :
    w.store = log.foldr (fun effect s => effect.apply s) w₀.store := by
  induction h with
  | nil => rfl
  | readWall _ ih => exact ih
  | count _ _ ih => exact ih
  | talk _ _ ih => exact ih
  | ran _ _ hhall ending ih =>
    rw [List.foldr_cons, ← ih, hhall]
    exact (Machine.close_store _ ending).trans (Machine.run_store ..)
  | unserved _ _ ih => exact ih
  | wrote _ path p outcome ih =>
    rw [List.foldr_cons, ← ih]
    rfl

theorem Reason.mono (h : Reason log key p remote) (hlog : log ⊆ log') :
    Reason log' key p remote := by
  cases h with
  | answered h htask hserves hkey hlacks => exact .answered (hlog h) htask hserves hkey hlacks
  | skipped h htask hkey hopen hquiet => exact .skipped (hlog h) htask hkey hopen hquiet
  | unserved h => exact .unserved (hlog h)

theorem Reasoned.nil : Reasoned key seeks [] := by
  intro later path p now earlier h
  exact absurd h (List.append_ne_nil_of_right_ne_nil _ (List.cons_ne_nil _ _)).symm

theorem Reasoned.cons (h : Reasoned key seeks log) {effect : Effect}
    (heffect : ∀ path p now, effect = .wrote path p .missing now →
      ∃ remote, seeks path remote ∧ Reason log key p remote) :
    Reasoned key seeks (effect :: log) := by
  rintro (_ | ⟨last, later⟩) path p now earlier heq
  · obtain ⟨hwrote, rfl⟩ := List.cons.inj heq
    exact heffect path p now hwrote
  · exact h later path p now earlier (List.cons.inj heq).2

def PolicyCall.Explains (log : List Effect) (call : PolicyCall) (outcome : Outcome) : Prop :=
  ∀ remote, call.IsAbout remote → outcome.forFile remote = .missing →
    Reason log call.key call.provider remote

theorem Effects.request (h : Effects policy w₀ log w) (r : Request)
    (enough : List (Finish CallResult) → Bool) (collects : Bool) (fuel : Nat)
    (ending : Machine.Ending) {m : Machine CallResult}
    (hm : ((Machine.start w ((r.clients w).map (r.plan policy ·))).run
      enough collects fuel).2 = m) :
    ∃ c, Effects policy w₀ (.ran w r c :: log) (m.close ending) ∧
      ∀ f ∈ m.finishes, ∃ client, (r.clients w)[f.task]? = some client ∧
        ∀ outcome, f.result = .ok outcome →
          (r.call client.2).Explains (.ran w r c :: log) outcome := by
  obtain ⟨c, hrun, hhall⟩ := Chronicle.run_of_session policy w r enough collects fuel
  have hmachine : c.hall.machine = m := by rw [hhall, ← hm]
  refine ⟨c, hmachine ▸ h.ran hrun hhall ending, fun f hf => ?_⟩
  obtain ⟨r', client, htask, htestified⟩ := Chronicle.testifies hrun (hmachine ▸ hf)
  rw [Hall.tasks, hhall, List.flatMap_singleton, List.getElem?_map] at htask
  obtain ⟨client, hclient, heq⟩ := Option.map_eq_some_iff.1 htask
  cases heq
  have hmem := List.mem_of_getElem? hclient
  have hprovider := Request.call_provider hmem
  refine ⟨client, hclient, fun outcome hok remote habout hmissing => ?_⟩
  rw [hprovider]
  rcases (htestified outcome hok).lacks hmissing habout with hlacks | ⟨hopen, hquiet⟩
  · exact .answered List.mem_cons_self hclient (Request.mem_clientsFor hmem) rfl hlacks
  · exact .skipped List.mem_cons_self hclient rfl (hprovider ▸ hopen) hquiet

end Effects

/-- A session after some effects. However it ends, its own effects record no missing file without
    a reason, and its result goes with all effects so far. -/
def Session.Accounts {α : Type} (policy : RetryPolicy) (key : Key)
    (seeks : String → String → Prop) (w₀ : World) (log : List Effect) (w : World) (s : Session α)
    (Q : List Effect → α → Prop) : Prop :=
  Effects policy w₀ log w → Reasoned key seeks log →
    ∃ more, Effects policy w₀ (more ++ log) (s w).2 ∧ Reasoned key seeks (more ++ log) ∧
      ∀ a, (s w).1 = .ok a → Q (more ++ log) a

namespace Session

variable {α : Type} {w : World} {fuel : Nat} {ending : Machine.Ending}

theorem runOne_of_run {plan : Plan (Except Failure α)} {m : Machine (Except Failure α)}
    (hrun : (Machine.start w [plan]).run (fun _ => false) false fuel = (ending, m)) :
    (runOne plan fuel w).2 = m.close ending ∧
      ∀ a, (runOne plan fuel w).1 = .ok a → ∃ f ∈ m.finishes, f.result = .ok a := by
  simp only [runOne, ExceptT.mk, World.runOne, hrun]
  cases ending with
  | abandoned => exact ⟨rfl, fun _ hok => by cases hok⟩
  | settled =>
    cases hhead : m.finishes.head? with
    | none =>
      simp only [hhead, Option.map_none]
      exact ⟨trivial, fun _ hok => by cases hok⟩
    | some f =>
      simp only [hhead, Option.map_some]
      refine ⟨trivial, fun a hok => ⟨f, List.mem_of_head? hhead, ?_⟩⟩
      cases hresult : f.result <;> rw [hresult] at hok <;> cases hok
      rfl

theorem runAll_of_run {plans : List (Plan α)} {enough : List (Finish α) → Bool} {m : Machine α}
    (hrun : (Machine.start w plans).run enough true fuel = (ending, m)) :
    runAll plans enough fuel w = (.error .abandoned, w) ∨
      (runAll plans enough fuel w).2 = m.close ending ∧
        ∀ finishes, (runAll plans enough fuel w).1 = .ok finishes → finishes = m.finishes := by
  simp only [runAll, ExceptT.mk, World.runAll, hrun]
  by_cases hlate : (!plans.isEmpty && w.deadline.any (· ≤ w.clock)) = true
  · rw [if_pos hlate]
    exact .inl rfl
  · rw [if_neg hlate]
    cases ending with
    | abandoned => exact .inr ⟨rfl, fun _ hok => by cases hok⟩
    | settled => exact .inr ⟨rfl, fun _ h => (Except.ok.inj h).symm⟩

end Session

namespace Session.Accounts

variable {α β : Type} {policy : RetryPolicy} {key : Key} {seeks : String → String → Prop}
variable {w₀ w : World} {log : List Effect} {s : Session α} {f : α → Session β}
variable {Q : List Effect → α → Prop} {R : List Effect → β → Prop}

theorem bind (h : Accounts policy key seeks w₀ log w s Q)
    (hf : ∀ more a v, s w = (.ok a, v) → Q (more ++ log) a →
      Accounts policy key seeks w₀ (more ++ log) v (f a) R) :
    Accounts policy key seeks w₀ log w (s >>= f) R := by
  intro heffects hreasoned
  obtain ⟨more, hmore, hreasons, hQ⟩ := h heffects hreasoned
  rcases hs : s w with ⟨halt | a, v⟩
  · rw [hs] at hmore
    rw [bind_of_error hs]
    exact ⟨more, hmore, hreasons, nofun⟩
  · rw [hs] at hmore hQ
    rw [bind_of_ok hs]
    obtain ⟨again, hagain, hreasons, hR⟩ := hf more a v hs (hQ a rfl) hmore hreasons
    rw [← List.append_assoc] at hagain hreasons hR
    exact ⟨again ++ more, hagain, hreasons, hR⟩

theorem aside (hworld : Effects policy w₀ log w → Effects policy w₀ log (s w).2)
    (hQ : ∀ a, (s w).1 = .ok a → Q log a) : Accounts policy key seeks w₀ log w s Q :=
  fun heffects hreasoned => ⟨[], hworld heffects, hreasoned, hQ⟩

theorem pure {a : α} (h : Q log a) : Accounts policy key seeks w₀ log w (Pure.pure a) Q :=
  aside id fun _ heq => Except.ok.inj heq ▸ h

theorem fail (f : Failure) : Accounts policy key seeks w₀ log w (Session.fail f : Session α) Q :=
  aside id nofun

theorem ofExcept (r : Except Failure α) :
    Accounts policy key seeks w₀ log w (Session.ofExcept r) fun _ _ => True := by
  cases r with
  | ok a => exact pure trivial
  | error f => exact fail f

theorem count (series : Series) :
    Accounts policy key seeks w₀ log w (Session.count series) fun _ _ => True :=
  aside (fun h => h.count series) fun _ _ => trivial

theorem talk (t : Http.OnWire α) :
    Accounts policy key seeks w₀ log w (Session.talk t) fun _ _ => True :=
  aside (fun h => h.talk t) fun _ _ => trivial

theorem records (path : String) :
    Accounts policy key seeks w₀ log w (Session.records path) fun _ _ => True :=
  aside id fun _ _ => trivial

theorem isStale (r : Record) :
    Accounts policy key seeks w₀ log w (Session.isStale r) fun _ _ => True :=
  aside (fun h => h.readWall) fun _ _ => trivial

theorem attempt (h : Accounts policy key seeks w₀ log w s Q) :
    Accounts policy key seeks w₀ log w (s.attempt.run : Session _) fun _ _ => True := by
  intro heffects hreasoned
  obtain ⟨more, hmore, hreasons, -⟩ := h heffects hreasoned
  refine ⟨more, ?_, hreasons, fun _ _ => trivial⟩
  change Effects policy w₀ (more ++ log) (Session.attempt s w).2
  unfold Session.attempt
  simp only [ExceptT.mk]
  split <;> (rename_i heq; rw [heq] at hmore; exact hmore)

theorem bind_run {x : ExceptT Failure Session α} {f : α → ExceptT Failure Session β}
    (h : Accounts policy key seeks w₀ log w x.run fun _ _ => True)
    (hf : ∀ more a v, Accounts policy key seeks w₀ (more ++ log) v (f a).run fun _ _ => True) :
    Accounts policy key seeks w₀ log w (x >>= f).run fun _ _ => True := by
  refine h.bind fun more r v _ _ => ?_
  cases r with
  | ok a => exact hf more a v
  | error f => exact pure trivial

theorem upsert {path : String} {p : Provider} {outcome : FileOutcome}
    (h : outcome = .missing → ∃ remote, seeks path remote ∧ Reason log key p remote) :
    Accounts policy key seeks w₀ log w (Session.upsert path p outcome) fun _ _ => True := by
  intro heffects hreasoned
  rw [upsert_eq]
  refine ⟨[.wrote path p outcome w.wall], heffects.wrote path p outcome,
    hreasoned.cons fun path' p' now heq => ?_, fun _ _ => trivial⟩
  cases heq
  exact h rfl

theorem ran (r : Request) {enough : List (Finish CallResult) → Bool} {collects : Bool}
    {fuel : Nat} {ending : Machine.Ending} {m : Machine CallResult}
    (hrun : (Machine.start w ((r.clients w).map (r.plan policy ·))).run enough collects fuel =
      (ending, m)) (hworld : (s w).2 = m.close ending)
    (hQ : ∀ log, (∀ f ∈ m.finishes, ∃ client, (r.clients w)[f.task]? = some client ∧
      ∀ outcome, f.result = .ok outcome → (r.call client.2).Explains log outcome) →
        ∀ a, (s w).1 = .ok a → Q log a) :
    Accounts policy key seeks w₀ log w s Q := by
  intro heffects hreasoned
  obtain ⟨c, hran, hexplains⟩ := heffects.request r enough collects fuel ending
    (congrArg Prod.snd hrun)
  refine ⟨[.ran w r c], hworld ▸ hran, hreasoned.cons ?_, hQ _ hexplains⟩
  rintro _ _ _ ⟨⟩

theorem call (c : PolicyCall) (hkey : c.key = key) :
    Accounts policy key seeks w₀ log w (c.session policy) c.Explains := by
  subst hkey
  cases hclient : w.clientOf? c.key c.provider with
  | none =>
    intro heffects hreasoned
    rw [c.session_of_none policy hclient]
    refine ⟨[.unserved c.key c.provider], heffects.unserved hclient, hreasoned.cons nofun,
      fun outcome _ remote _ _ => .unserved List.mem_cons_self⟩
  | some client =>
    have hclients : (Request.one c).clients w = [(client, c.provider)] := by
      rw [Request.clients, hclient]
      rfl
    let plan := policy.call c.provider (c.attempt client)
    have hplans : ((Request.one c).clients w).map ((Request.one c).plan policy ·) = [plan] := by
      rw [hclients]
      rfl
    rcases hrun : (Machine.start w [plan]).run (fun _ => false) false (policy.turnsFor 1)
      with ⟨ending, m⟩
    obtain ⟨hworld, hresult⟩ := runOne_of_run hrun
    rw [← c.session_of_some policy hclient] at hworld hresult
    refine ran (.one c) (hplans.symm ▸ hrun) hworld fun log hexplains outcome hok => ?_
    obtain ⟨f, hf, hresult⟩ := hresult outcome hok
    obtain ⟨found, hfound, hexplains⟩ := hexplains f hf
    exact hexplains outcome hresult

theorem resolve (policy : RetryPolicy) (key : Key) :
    Accounts policy key seeks w₀ log w (policy.resolve key) fun log resolutions =>
      ∀ r ∈ resolutions, (PolicyCall.resolve key r.provider).Explains log r.outcome := by
  refine bind (aside (Q := fun _ v => v = w) id fun v hv => (Except.ok.inj hv).symm)
    fun more v v' hv heq => ?_
  cases hv
  refine bind (Q := fun log finishes => ∀ f ∈ finishes,
    ∃ client, (w.clientsFor key.kind)[f.task]? = some client ∧ ∀ outcome, f.result = .ok outcome →
      (PolicyCall.resolve key client.2).Explains log outcome) ?_ fun more finishes v _ hall => ?_
  · let plans := (w.clientsFor key.kind).map (policy.resolveCall key)
    let enough (finishes : List (Finish CallResult)) := (firstFailure? finishes).isSome
    rcases hrun : (Machine.start w plans).run enough true
      (policy.turnsFor (w.clientsFor key.kind).length) with ⟨ending, m⟩
    rcases runAll_of_run hrun with hlate | ⟨hworld, hfinishes⟩
    · refine aside (hlate ▸ id) fun finishes hok => ?_
      rw [hlate] at hok
      cases hok
    · refine ran (.everyone key) hrun hworld fun log hexplains finishes hok => ?_
      rw [hfinishes finishes hok]
      exact hexplains
  · split
    · exact fail _
    · refine pure fun r hr => ?_
      obtain ⟨f, hf, client, hclient, hprovider, hresult⟩ :=
        RetryPolicy.provider_of_mem_resolutionsOf hr
      obtain ⟨client', hclient', hexplains⟩ := hall f hf
      obtain rfl : client = client' := Option.some.inj (hclient.symm.trans hclient')
      rw [hprovider]
      exact hexplains r.outcome hresult

end Session.Accounts

/-- The path under which a virtual file's providers are asked for it. -/
def World.sought (w : World) (path : String) : String :=
  ((w.store.records path).findSome? (·.remotePath)).getD (VirtualFile.fileName path)

namespace Relay

open Session (Accounts)

variable {seeks : String → String → Prop} {w₀ w : World} {log : List Effect}
variable (relay : Relay) {path : String} (key : Key)

theorem accounts_revalidate {remote : String} (hseeks : seeks path remote)
    (records : List Record) :
    Accounts relay.policy key seeks w₀ log w (relay.revalidate path key remote records)
      fun _ _ => True := by
  induction records generalizing log w with
  | nil => exact .fail _
  | cons r rest ih =>
    refine (Accounts.isStale r).bind fun _ isStale _ _ _ => ?_
    split
    · refine (Accounts.call (.resolve key r.provider) rfl).bind fun _ outcome _ _ hexplains => ?_
      have hreason : outcome.forFile remote = .missing → ∃ remote, seeks path remote ∧ _ :=
        fun hmissing => ⟨remote, hseeks, hexplains remote trivial hmissing⟩
      refine (Accounts.upsert hreason).bind fun _ updated _ _ _ => ?_
      split
      · exact .pure trivial
      · exact ih
    · exact ih

theorem accounts_fileLink (hseeks : seeks path (w.sought path)) :
    Accounts relay.policy key seeks w₀ log w (relay.fileLink path key) fun _ _ => True := by
  have hread : Session.records path w = (.ok (w.store.records path), w) := rfl
  refine (Accounts.records path).bind fun _ records v heq _ => ?_
  rw [hread] at heq
  cases heq
  split
  · exact .pure trivial
  · exact relay.accounts_revalidate key hseeks _

theorem accounts_refreshLink {dead : CachedFile} (hseeks : seeks path dead.path) :
    Accounts relay.policy key seeks w₀ log w (relay.refreshLink path key dead)
      fun _ _ => True := by
  refine (Accounts.call (.refresh key dead) rfl).bind fun _ outcome _ _ hexplains => ?_
  have hreason : outcome.forFile dead.path = .missing → ∃ remote, seeks path remote ∧ _ :=
    fun hmissing => ⟨dead.path, hseeks, hexplains dead.path rfl hmissing⟩
  refine (Accounts.upsert hreason).bind fun _ updated _ _ _ => ?_
  split
  · exact (Accounts.count _).bind fun _ _ _ _ _ => .pure trivial
  · exact (Accounts.count _).bind fun _ _ _ _ _ => .fail _

theorem accounts_replaceLink {dead : CachedFile} (hseeks : seeks path dead.path) :
    Accounts relay.policy key seeks w₀ log w (relay.replaceLink path key dead)
      fun _ _ => True :=
  (Accounts.count _).bind fun _ _ _ _ _ => relay.accounts_refreshLink key hseeks

theorem accounts_send (p : Prepared) :
    Accounts relay.policy key seeks w₀ log w ((relay.supply path key).send p).run
      fun _ _ => True :=
  .talk p.send

theorem accounts_openOver (range : Option RangeRequest) (file : CachedFile) :
    Accounts relay.policy key seeks w₀ log w (relay.openOver path key range file)
      fun _ _ => True := by
  refine (Accounts.ofExcept _).bind fun _ prepared _ _ _ => ?_
  exact (relay.accounts_send key prepared).bind_run fun _ _ _ => .pure trivial

theorem accounts_openFresh (range : Option RangeRequest) (file : CachedFile) :
    Accounts relay.policy key seeks w₀ log w (relay.openFresh path key range file)
      fun _ _ => True := by
  refine (relay.accounts_openOver key range file).bind fun _ result _ _ _ => ?_
  split
  · exact .pure trivial
  · exact .fail _

theorem accounts_openStream (range : Option RangeRequest) (hsought : seeks path (w.sought path))
    (hseeks : ∀ file v, relay.fileLink path key w = (.ok file, v) → seeks path file.path) :
    Accounts relay.policy key seeks w₀ log w (relay.openStream path key range)
      fun _ _ => True := by
  refine (relay.accounts_fileLink key hsought).bind fun _ file v hlink _ => ?_
  refine (Accounts.talk _).bind fun _ alive _ _ _ => ?_
  have hreplaced (log : List Effect) (w : World) :
      Accounts relay.policy key seeks w₀ log w (do
        relay.openFresh path key range (← relay.replaceLink path key file)) fun _ _ => True :=
    (relay.accounts_replaceLink key (hseeks file v hlink)).bind fun _ fresh _ _ _ =>
      relay.accounts_openFresh key range fresh
  split
  · refine (relay.accounts_openOver key range file).bind fun _ result _ _ _ => ?_
    split
    · exact .pure trivial
    · exact hreplaced _ _
  · exact hreplaced _ _

theorem accounts_next {stream : LinkStream} (hseeks : seeks path stream.file.path) :
    Accounts relay.policy key seeks w₀ log w (stream.next (relay.supply path key))
      fun _ _ => True := by
  unfold LinkStream.next
  split
  · exact .pure trivial
  next f after hpull =>
    obtain ⟨-, rfl⟩ := LinkStream.pull_error hpull
    split
    · exact .pure trivial
    · refine Accounts.bind (Accounts.bind_run
        (relay.accounts_replaceLink key hseeks).attempt fun _ fresh _ => ?_) fun _ r _ _ _ => ?_
      · refine Accounts.bind_run (x := liftM (LinkStream.rest _ fresh)) ?_ fun _ prepared _ => ?_
        · cases LinkStream.rest _ fresh <;> exact .pure trivial
        · exact (relay.accounts_send key prepared).bind_run fun _ _ _ => .pure trivial
      · split <;> exact .pure trivial

theorem accounts_record {entries : List VirtualFile.Entry}
    (h : ∀ e ∈ entries, e.outcome = .missing →
      ∃ remote, seeks e.path remote ∧ Reason log key e.provider remote) :
    Accounts relay.policy key seeks w₀ log w (forIn entries PUnit.unit fun e _ => do
      let _ ← Session.upsert e.path e.provider e.outcome
      pure (.yield PUnit.unit) : Session PUnit) fun _ _ => True := by
  induction entries generalizing log w with
  | nil => exact .pure trivial
  | cons e rest ih =>
    rw [List.forIn_cons]
    refine Accounts.bind (Q := fun _ _ => True) ((Accounts.upsert (h e List.mem_cons_self)).bind
      fun _ _ _ _ _ => .pure trivial) fun more step _ _ _ => ?_
    split
    · exact .pure trivial
    · refine ih fun e he hmissing => ?_
      obtain ⟨remote, hseeks, hreason⟩ := h e (List.mem_cons_of_mem _ he) hmissing
      exact ⟨remote, hseeks, hreason.mono (List.subset_append_right _ _)⟩

theorem accounts_addContent {root : String}
    (hseeks : ∀ path resolutions v, relay.policy.resolve key w = (.ok resolutions, v) →
      seeks path (VirtualFile.remotePath root (Resolution.files resolutions) path)) :
    Accounts relay.policy key seeks w₀ log w (relay.addContent key root) fun _ _ => True := by
  refine (Accounts.resolve relay.policy key).bind fun _ resolutions v hresolve hexplains => ?_
  have hrecorded (log : List Effect) (w : World) (hexplains : ∀ r ∈ resolutions,
      (PolicyCall.resolve key r.provider).Explains log r.outcome) :
      Accounts relay.policy key seeks w₀ log w (forIn (VirtualFile.entries root resolutions)
        PUnit.unit fun e _ => do
          let _ ← Session.upsert e.path e.provider e.outcome
          pure (.yield PUnit.unit) : Session PUnit) fun _ _ => True := by
    refine relay.accounts_record key fun e he hmissing => ?_
    obtain ⟨file, -, he⟩ := List.mem_flatMap.1 he
    obtain ⟨r, hr, rfl⟩ := List.mem_map.1 he
    exact ⟨_, hseeks file.path resolutions v hresolve, hexplains r hr _ trivial hmissing⟩
  dsimp only
  split
  · exact (Accounts.fail (Q := fun _ _ => False) _).bind fun _ _ _ _ hnever => hnever.elim
  · exact (hrecorded _ _ hexplains).bind fun _ _ _ _ _ => .pure trivial

end Relay

theorem Session.Accounts.effects {α : Type} {policy : RetryPolicy} {key : Key}
    {seeks : String → String → Prop} {w : World} {s : Session α} {Q : List Effect → α → Prop}
    (h : Accounts policy key seeks w [] w s Q) :
    ∃ log, Effects policy w log (s w).2 ∧ Reasoned key seeks log := by
  obtain ⟨more, heffects, hreasoned, -⟩ := h .nil .nil
  exact ⟨more ++ [], heffects, hreasoned⟩

namespace Service

def key? (s : Service) : Errand → Option Key
  | .addContent key _ | .fileLink _ key | .refreshLink _ key _ | .openStream _ key _ => some key
  | .next n => s.streams[n]?.map (·.key)
  | .deleteFile _ | .upsert .. => none

/-- The providers' paths under which an errand looks for the file that is shown at a path. -/
def Seeks (relay : Relay) (s : Service) (e : Errand) (path remote : String) : Prop :=
  match e with
  | .addContent key root =>
    ∃ resolutions v, relay.policy.resolve key s.world = (.ok resolutions, v) ∧
      remote = VirtualFile.remotePath root (Resolution.files resolutions) path
  | .fileLink own _ => path = own ∧ remote = s.world.sought own
  | .refreshLink own _ dead => path = own ∧ remote = dead.path
  | .openStream own key _ => path = own ∧ (remote = s.world.sought own ∨
    ∃ file v, relay.fileLink own key s.world = (.ok file, v) ∧ remote = file.path)
  | .next n => ∃ o, s.streams[n]? = some o ∧ path = o.path ∧ remote = o.stream.file.path
  | .deleteFile _ | .upsert .. => False

variable {relay : Relay} {s : Service} {e : Errand} {key : Key}

theorem exists_effects (relay : Relay) (hkey : s.key? e = some key) :
    ∃ log, Effects relay.policy s.world log (s.serve relay e).world ∧
      Reasoned key (s.Seeks relay e) log := by
  cases e with
  | addContent key root =>
    cases hkey
    exact (relay.accounts_addContent key fun _ resolutions v h => ⟨resolutions, v, h, rfl⟩).effects
  | fileLink path key =>
    cases hkey
    exact (relay.accounts_fileLink key ⟨rfl, rfl⟩).effects
  | refreshLink path key dead =>
    cases hkey
    exact (relay.accounts_refreshLink key ⟨rfl, rfl⟩).effects
  | openStream path key range =>
    cases hkey
    rw [serve_openStream]
    exact (relay.accounts_openStream key range ⟨rfl, .inl rfl⟩
      fun file v h => ⟨rfl, .inr ⟨file, v, h, rfl⟩⟩).effects
  | next n =>
    obtain ⟨o, ho, rfl⟩ := Option.map_eq_some_iff.1 hkey
    rw [serve_next relay ho]
    exact (relay.accounts_next o.key ⟨o, ho, rfl, rfl⟩).effects
  | deleteFile path => cases hkey
  | upsert path provider outcome => cases hkey

end Service

/-- Whether nobody would be asked: no client serves the key, or the provider's circuit is open. -/
def World.Unasked (w : World) (key : Key) (p : Provider) : Prop :=
  w.clientOf? key p = none ∨ w.breaker.isOpenAt p.name w.clock = true

section Unasked

variable {policy : RetryPolicy} {w : World}

theorem RetryPolicy.runOne_of_open (policy : RetryPolicy) {p : Provider}
    (h : w.breaker.isOpenAt p.name w.clock = true) (attempt : Attempt Outcome) (fuel : Nat) :
    w.runOne (policy.call p attempt) (fuel + 2) =
      (some (.ok .notCached), (w.count (.breakerSkipped p)).count (.outcome p "not_cached")) := by
  have hcheck : w.breaker.check p.name w.clock = (true, w.breaker) := if_pos h
  have hturn : (policy.call p attempt).run 0 w [] = ⟨.finished (.ok .notCached),
      (w.count (.breakerSkipped p)).count (.outcome p "not_cached"), [], none⟩ := by
    rw [call, Plan.run, hcheck]
    rfl
  have hstart : Machine.start w [policy.call p attempt] =
      ⟨w, [.ready (policy.call p attempt)], [0], [], []⟩ := rfl
  rw [World.runOne, hstart, Machine.run]
  simp only [Machine.turn, List.getElem?_cons_zero, Stage.resume, hturn]
  rfl

theorem PolicyCall.session_of_unasked (policy : RetryPolicy) (c : PolicyCall)
    (h : w.Unasked c.key c.provider) :
    ∃ metrics, c.session policy w = (.ok .notCached, { w with metrics }) := by
  cases hclient : w.clientOf? c.key c.provider with
  | none => exact ⟨w.metrics, c.session_of_none policy hclient⟩
  | some client =>
    have hopen := h.resolve_left (hclient ▸ Option.some_ne_none client)
    have hfuel : policy.turnsFor 1 = 1 * (policy.retries + 1) * 20 + 14 + 2 := rfl
    have hrun : Session.runOne (policy.call c.provider (c.attempt client)) (policy.turnsFor 1) w =
        (.ok .notCached, (w.count (.breakerSkipped c.provider)).count
          (.outcome c.provider "not_cached")) := by
      simp only [Session.runOne, ExceptT.mk, hfuel, policy.runOne_of_open hopen]
      rfl
    exact ⟨_, (c.session_of_some policy hclient).trans hrun⟩

theorem Relay.refreshLink_of_unasked (relay : Relay) (path : String) {key : Key}
    {dead : CachedFile} (h : w.Unasked key dead.provider) :
    ∃ halt v, relay.refreshLink path key dead w = (.error halt, v) ∧
      v.store = (w.store.upsertAt path dead.provider .missing w.wall).2 ∧
      v.clients = w.clients := by
  obtain ⟨metrics, hcall⟩ := PolicyCall.session_of_unasked relay.policy (.refresh key dead) h
  have hrefresh : relay.policy.refreshFile key dead w = (.ok .notCached, { w with metrics }) :=
    hcall
  rw [refreshLink, Session.bind_of_ok hrefresh]
  have hupsert := Session.upsert_eq path dead.provider .missing { w with metrics }
  rcases hsaved : w.store.upsertAt path dead.provider .missing w.wall with ⟨_ | updated, store⟩
  · rw [hsaved] at hupsert
    exact ⟨_, _, Session.bind_of_error hupsert _, rfl, rfl⟩
  · rw [hsaved] at hupsert
    exact ⟨_, _, Session.bind_of_ok hupsert _, rfl, rfl⟩

end Unasked

/-- Whenever an errand records that a provider lacks a file, it has called the provider's client
    before and the answer did not contain the file, or the provider's circuit was open when it was
    called, or no client of the provider serves the key. The last two suffice: a refresh of a link
    asks nobody then and records that the file is missing, whatever was recorded before. -/
theorem missing_files_have_reasons (relay : Relay) :
    (∀ (s : Service) (e : Errand) (key : Key), s.key? e = some key →
      ∃ log, Effects relay.policy s.world log (s.serve relay e).world ∧
        (s.serve relay e).world.store =
          log.foldr (fun effect store => effect.apply store) s.world.store ∧
        Reasoned key (s.Seeks relay e) log) ∧
      ∀ (w : World) (path : String) (key : Key) (dead : CachedFile), w.Unasked key dead.provider →
        ∃ halt v, relay.refreshLink path key dead w = (.error halt, v) ∧
          v.store = (w.store.upsertAt path dead.provider .missing w.wall).2 ∧
          v.clients = w.clients := by
  refine ⟨fun s e key hkey => ?_, fun w path key dead h => relay.refreshLink_of_unasked path h⟩
  obtain ⟨log, heffects, hreasoned⟩ := Service.exists_effects relay hkey
  exact ⟨log, heffects, heffects.store_eq, hreasoned⟩

/-- A film that its provider has, and a show and an album that providers have failed on. The first
    provider's circuit is open, and the other one has no client. -/
def Service.interrupted : Service :=
  let film : CachedFile := ⟨"film", 3, none, "http://host/film", .premiumize, 0, ∅⟩
  let w := World.start [.having .premiumize [film]] (.ofStandard .standard) ⟨.memory, default⟩
    ⟨[], [], .common⟩ (fun n => n)
  let s := serveAll ⟨⟨0, 0, 0⟩⟩ ⟨w, []⟩
    [.upsert "/film" .premiumize (.cached film), .upsert "/show" .premiumize (.failed .provider),
      .upsert "/album" .easynews (.failed .network)]
  { s with world := { s.world with
      breaker := s.world.breaker.trip Provider.premiumize.name 60000 0 } }

theorem missing_files_have_reasons_when_interrupted :
    let relay : Relay := ⟨⟨0, 0, 0⟩⟩
    let key : Key := .torrent "hash" ""
    let film : CachedFile := ⟨"film", 3, none, "http://host/film", .premiumize, 0, ∅⟩
    let s := Service.interrupted
    let e : Errand := .fileLink "/show" key
    s.key? e = some key ∧ s.world.Unasked key film.provider ∧
      (∃ log, Effects relay.policy s.world log (s.serve relay e).world ∧
        (s.serve relay e).world.store =
          log.foldr (fun effect store => effect.apply store) s.world.store ∧
        Reasoned key (s.Seeks relay e) log) ∧
      ∃ halt v, relay.refreshLink "/film" key film s.world = (.error halt, v) ∧
        v.store = (s.world.store.upsertAt "/film" film.provider .missing s.world.wall).2 ∧
        v.clients = s.world.clients := by
  intro relay key film s e
  have hunasked : s.world.Unasked key film.provider := .inr (by decide +kernel)
  obtain ⟨hreasons, hrefresh⟩ := missing_files_have_reasons relay
  exact ⟨rfl, hunasked, hreasons s e key rfl, hrefresh s.world "/film" key film hunasked⟩

/-- A cached film and failures on others are recorded as missing files, and nobody was asked. -/
theorem unasked_files_are_recorded_as_missing :
    let relay : Relay := ⟨⟨0, 0, 0⟩⟩
    let key : Key := .torrent "hash" ""
    let film : CachedFile := ⟨"film", 3, none, "http://host/film", .premiumize, 0, ∅⟩
    let s := Service.interrupted
    let after := s.serveAll relay
      [.refreshLink "/film" key film, .fileLink "/show" key, .fileLink "/album" key]
    let states (s : Service) (path : String) := (s.world.store.records path).map (·.state)
    let asked (s : Service) := s.world.clients.map fun
      | .scripted script => script.asked
      | _ => (0, 0, 0)
    states s "/film" = [.cached] ∧ states after "/film" = [.missing] ∧
      states s "/show" = [.failed .provider] ∧ states after "/show" = [.missing] ∧
      states s "/album" = [.failed .network] ∧ states after "/album" = [.missing] ∧
      asked after = [(0, 0, 0)] := by
  decide +kernel

end LinkRelay
