import LinkRelay.Proofs.Limiter.Quota
import LinkRelay.Proofs.Resolve.Admitted
set_option autoImplicit false

/-!
# Quotas of calls that run together

A step of a task changes at most the window at which it asks, and what it is told there is what the
window remembers. So the log of a chronicle has every admission, and under each name it has no more
of them in any interval than the limit of that name allows, however many calls there are.
-/

namespace LinkRelay

theorem Access.ofAdmission?_eq_admitted {name other : String} {answer : Admission} :
    ofAdmission? name answer = some (.admitted other) ↔ name = other ∧ answer = .admitted := by
  cases answer <;> simp [ofAdmission?]

theorem Script.answer_provider (s : Script) (q : Question) :
    (s.answer q).2.provider = s.provider := by
  cases q <;> rw [answer] <;> split <;> rfl

namespace Client

theorem noted_provider (c : Client) (q : Question) : (c.noted q).provider = c.provider := by
  cases c with
  | premiumize | easynews => rfl
  | scripted s => cases q <;> rfl

theorem answer_provider (c : Client) (moments : Nat → Time) (wire : Http.Wire) (q : Question) :
    (c.answer moments wire q).2.1.provider = c.provider := by
  cases c with
  | premiumize | easynews => cases q <;> rfl
  | scripted s =>
    have hsame := s.answer_provider q
    cases q <;> exact hsame

end Client

namespace World

def providers (w : World) : List Provider := w.clients.map (·.provider)

theorem providers_set {clients : List Client} {client : Nat} {c c' : Client}
    (hc : clients[client]? = some c) (hsame : c'.provider = c.provider) :
    (clients.set client c').map (·.provider) = clients.map (·.provider) := by
  obtain ⟨hlt, rfl⟩ := List.getElem?_eq_some_iff.1 hc
  have hlt' : client < (clients.map (·.provider)).length := by rwa [List.length_map]
  have hself := List.set_getElem_self hlt'
  rw [List.getElem_map] at hself
  rw [List.map_set, hsame, hself]

theorem place_providers (w : World) (client : Nat) (q : Question) :
    (w.place client q).2.providers = w.providers := by
  unfold place
  split
  next c hc => exact providers_set hc (c.noted_provider q)
  next => rfl

theorem receive_providers (w : World) (client : Nat) (q : Question) :
    (w.receive client q).2.providers = w.providers := by
  unfold receive
  split
  next c hc => exact providers_set hc (c.answer_provider _ _ q)
  next => rfl

end World

namespace Stage

variable {α : Type} {w : World} {task : Nat} {stage : Stage α}

def Placed (l : Limiter) : Stage α → Prop
  | .inLine number name _ | .atHead number name _ _ => l.current.get? name = some number
  | .ready _ | .finished _ => True

def atWindow? : Stage α → Option (String × (Except Failure Nat → Plan α))
  | .ready (.awaitTurn name k) | .inLine _ name k | .atHead _ name _ k => some (name, k)
  | _ => none

def finds (task : Nat) (l : Limiter) (name : String) : Stage α → Window
  | .ready _ => (l.present name).join task
  | .inLine .. | .atHead .. | .finished _ => l.present name

def since (now : Nat) : Stage α → Nat
  | .atHead _ _ since _ => since
  | .ready _ | .inLine .. | .finished _ => now

end Stage

def Move.asking {α : Type} (task : Nat) (w : World) (name : String) (window : Window) (since : Nat)
    (k : Except Failure Nat → Plan α) : Move α :=
  let (answer, window) := window.ask task w.clock
  let w' := { w with limiter := w.limiter.put name window }
  match answer with
  | .admitted => ⟨.ready (k (.ok (w.clock - since))), w', window.first?.toList, .atOnce⟩
  | .neverPossible =>
    ⟨.ready (k (.error (.internal (.zeroQuota name)))), w', window.first?.toList, .atOnce⟩
  | .notBefore moment => ⟨.atHead (w.limiter.number name) name since k, w', [], .later moment⟩
  | .notFirst => ⟨.inLine (w.limiter.number name) name k, w', [], .asleep⟩

namespace Stage

variable {α : Type} {w : World} {task : Nat} {stage : Stage α} {name : String}
variable {k : Except Failure Nat → Plan α}

theorem move_eq_asking (hsound : w.limiter.Sound) (hplaced : stage.Placed w.limiter)
    (h : stage.atWindow? = some (name, k)) : stage.move task w =
      .asking task w name (stage.finds task w.limiter name) (stage.since w.clock) k := by
  have hagain (since number : Nat) (hnumber : w.limiter.current.get? name = some number) :
      moveAgain task number name since k w =
        .asking task w name (w.limiter.present name) since k := by
    have hsame : w.limiter.number name = number := by rw [Limiter.number, Limiter.window, hnumber]
    rw [moveAgain, World.askWindow_of_get? hsound hnumber, Move.asking, hsame]
    rcases (w.limiter.present name).ask task w.clock with ⟨_ | _ | _ | _, window⟩ <;> rfl
  cases stage with
  | ready plan =>
    cases plan with
    | awaitTurn name' k' =>
      cases h
      rw [show (Stage.ready (.awaitTurn name k)).move task w = (Plan.awaitTurn name k).move task w
        from rfl, Plan.move, hsound.arrive_eq]
      dsimp only
      rw [w.askWindow_put hsound, Move.asking, since, Nat.sub_self, finds]
      rcases ((w.limiter.present name).join task).ask task w.clock with ⟨_ | _ | _ | _, window⟩ <;>
        rfl
    | _ => cases h
  | inLine number name' k' =>
    cases h
    exact hagain _ number hplaced
  | atHead number name' since k' =>
    cases h
    exact hagain _ number hplaced
  | finished a => cases h

theorem access?_eq (hsound : w.limiter.Sound) (hplaced : stage.Placed w.limiter)
    (h : stage.atWindow? = some (name, k)) : stage.access? task w =
      Access.ofAdmission? name ((stage.finds task w.limiter name).ask task w.clock).1 := by
  cases stage with
  | ready plan =>
    cases plan with
    | awaitTurn name' k' =>
      cases h
      rw [access?, Plan.access?, hsound.arrive_eq]
      dsimp only
      rw [w.askWindow_put hsound]
      rfl
    | _ => cases h
  | inLine number name' k' | atHead number name' since k' =>
    cases h
    rw [access?, World.askWindow_of_get? hsound hplaced]
    rfl
  | finished a => cases h

/-- What a step of a task does to the limiter, with what the task is told there. -/
inductive Turns (w : World) (task : Nat) (access : Option Access) (stage : Stage α)
    (l : Limiter) : Prop
  | aside (hlimiter : l = w.limiter) (hstage : stage.window? = none)
    (haccess : ∀ name, access ≠ some (.admitted name))
  | asked {name : String} {window : Window}
    (hlimit : window.limit = (w.limiter.present name).limit)
    (hadmitted : window.admitted = (w.limiter.present name).admitted)
    (haccess : access = Access.ofAdmission? name (window.ask task w.clock).1)
    (hlimiter : l = w.limiter.put name (window.ask task w.clock).2)
    (hstage : stage.Placed l)

structure Goes (w : World) (task : Nat) (access : Option Access) (move : Move α) : Prop where
  clock : move.world.clock = w.clock
  providers : move.world.providers = w.providers
  turns : Turns w task access move.stage move.world.limiter
  pace {plan : Plan α} (h : move.stage = .ready plan) :
    move.pace = .atOnce ∨ ∃ ms, access = some (.paused ms)

theorem goes_asking (hsound : w.limiter.Sound) (since : Nat) {name : String}
    {k : Except Failure Nat → Plan α} {window : Window}
    (hlimit : window.limit = (w.limiter.present name).limit)
    (hadmitted : window.admitted = (w.limiter.present name).admitted) :
    Goes w task (Access.ofAdmission? name (window.ask task w.clock).1)
      (.asking task w name window since k) := by
  have hturns {stage : Stage α} (hstage : stage.Placed
      (w.limiter.put name (window.ask task w.clock).2)) :
      Turns w task (Access.ofAdmission? name (window.ask task w.clock).1) stage
        (w.limiter.put name (window.ask task w.clock).2) :=
    .asked hlimit hadmitted rfl rfl hstage
  have hnumber := (hsound.put name (window.ask task w.clock).2).number
  rw [Move.asking]
  generalize window.ask task w.clock = answer at hturns hnumber
  obtain ⟨_ | _ | _ | t, window⟩ := answer
  · exact ⟨rfl, rfl, hturns hnumber, nofun⟩
  · exact ⟨rfl, rfl, hturns trivial, fun _ => .inl rfl⟩
  · exact ⟨rfl, rfl, hturns trivial, fun _ => .inl rfl⟩
  · exact ⟨rfl, rfl, hturns hnumber, nofun⟩

theorem goes_aside (h : stage.atWindow? = none) :
    Goes w task (stage.access? task w) (stage.move task w) := by
  cases stage with
  | ready plan =>
    cases plan with
    | done a => exact ⟨rfl, rfl, .aside rfl rfl (fun _ h => by cases h), (fun h => by cases h)⟩
    | checkCircuit p k | openCircuit p ms k | count s k | readClock k =>
      exact ⟨rfl, rfl, .aside rfl rfl (fun _ h => by cases h), fun _ => .inl rfl⟩
    | awaitTurn name k => cases h
    | place c q k =>
      exact ⟨w.place_clock c q, w.place_providers c q,
        .aside (w.place_limiter c q) rfl (fun _ h => by cases h), fun _ => .inl rfl⟩
    | receive c q k =>
      exact ⟨w.receive_clock c q, w.receive_providers c q,
        .aside (w.receive_limiter c q) rfl (fun _ h => by cases h), fun _ => .inl rfl⟩
    | pause ms k =>
      cases ms with
      | zero => exact ⟨rfl, rfl, .aside rfl rfl (fun _ h => by cases h), fun _ => .inl rfl⟩
      | succ ms =>
        exact ⟨rfl, rfl, .aside rfl rfl (fun _ h => by cases h), fun _ => .inr ⟨_, rfl⟩⟩
  | inLine | atHead => cases h
  | finished a => exact ⟨rfl, rfl, .aside rfl rfl nofun, nofun⟩

theorem goes (task : Nat) (hsound : w.limiter.Sound) (h : stage.Placed w.limiter) :
    Goes w task (stage.access? task w) (stage.move task w) := by
  cases hwindow : stage.atWindow? with
  | none => exact goes_aside hwindow
  | some window =>
    rw [move_eq_asking hsound h hwindow, access?_eq hsound h hwindow]
    cases stage with
    | ready | inLine | atHead | finished => exact goes_asking hsound _ rfl rfl

theorem Placed.put {l : Limiter} (h : stage.Placed l) (hsound : l.Sound) (name : String)
    (window : Window) : stage.Placed (l.put name window) := by
  have hput := hsound.put name window
  have hnumber {name' : String} {n : Nat} (hn : l.current.get? name' = some n) :
      (l.put name window).current.get? name' = some n := by
    by_cases hname : name' = name
    · subst hname
      rw [hput.number, Limiter.number, Limiter.window, hn]
    · rw [hput.numbers hname, hn]
  cases stage with
  | ready | finished => exact trivial
  | inLine | atHead => exact hnumber h

theorem Placed.of_window {l : Limiter} (h : stage.window? = none) : stage.Placed l := by
  cases stage with
  | ready | finished => exact trivial
  | inLine | atHead => cases h

end Stage

theorem Request.mem_providers {w : World} {r : Request} {client : Nat × Provider}
    (h : client ∈ r.clients w) : w.providers[client.1]? = some client.2 := by
  have hserves {kind : Kind} (h : client ∈ w.clientsFor kind) :
      w.providers[client.1]? = some client.2 := by
    obtain ⟨c, hc, -, hprovider⟩ := World.mem_clientsFor.1 h
    rw [World.providers, List.getElem?_map, hc, Option.map_some, hprovider]
  cases r with
  | everyone key => exact hserves h
  | one call =>
    obtain ⟨n, hn, rfl⟩ := Option.map_eq_some_iff.1 (Option.mem_toList.1 h)
    exact hserves (World.clientOf?_mem hn)

namespace Chronicle

variable {policy : RetryPolicy} {w : World} {c c' : Chronicle} {task : Nat}
variable {stage : Stage CallResult} {name : String}

/-- The admissions in a chronicle that began in a world are those at its windows since then. -/
structure Balances (w : World) (c : Chronicle) : Prop where
  sound : c.hall.machine.world.limiter.Sound
  providers : c.hall.machine.world.providers = w.providers
  placed {stage : Stage CallResult} (h : stage ∈ c.hall.machine.stages) :
    stage.Placed c.hall.machine.world.limiter
  windows (name : String) : (w.limiter.present name).Since (c.admissions name)
    c.hall.machine.world.clock (c.hall.machine.world.limiter.present name)
  clients {r : Request} {client : Nat × Provider} (h : (r, client) ∈ c.hall.tasks) :
    w.providers[client.1]? = some client.2
  awake {task : Nat} {plan : Plan CallResult}
    (h : c.hall.machine.stages[task]? = some (.ready plan)) :
    task ∈ c.hall.machine.queue ∨ ∃ ms earlier, c.trace task = .paused ms :: earlier

theorem admissions_go (c : Chronicle) (task : Nat) (stage : Stage CallResult) (name : String) :
    (c.go task stage).admissions name = c.admissions name ++
      ((stage.access? task c.hall.machine.world).bind fun access =>
        (Note.mk task c.hall.machine.world.clock access).admission? name).toList := by
  rw [admissions, go, List.filterMap_append]
  refine congrArg (c.admissions name ++ ·) ?_
  cases stage.access? task c.hall.machine.world with
  | none => rfl
  | some access =>
    cases h : (Note.mk task c.hall.machine.world.clock access).admission? name <;> simp [h]

theorem admissions_go_of_ne (h : stage.access? task c.hall.machine.world ≠ some (.admitted name)) :
    (c.go task stage).admissions name = c.admissions name := by
  rw [admissions_go]
  cases haccess : stage.access? task c.hall.machine.world with
  | none => exact List.append_nil _
  | some access =>
    cases access with
    | admitted other =>
      rw [haccess] at h
      have hother : other ≠ name := fun hname => h (hname ▸ rfl)
      simp [Note.admission?, hother]
    | _ => exact List.append_nil _

theorem admissions_go_of_admitted
    (h : stage.access? task c.hall.machine.world = some (.admitted name)) :
    (c.go task stage).admissions name = c.admissions name ++ [c.hall.machine.world.clock] := by
  rw [admissions_go, h]
  simp [Note.admission?]

namespace Balances

theorem opened (hsound : w.limiter.Sound) : (opened w).Balances w :=
  ⟨hsound, rfl, nofun, fun _ => .rfl, nofun, nofun⟩

theorem windows_go (h : c.Balances w) {stage' : Stage CallResult} {l : Limiter}
    (hturns : stage'.Turns c.hall.machine.world task
      (stage.access? task c.hall.machine.world) l) (name : String) :
    (w.limiter.present name).Since ((c.go task stage).admissions name)
      c.hall.machine.world.clock (l.present name) := by
  cases hturns with
  | aside hlimiter _ haccess =>
    rw [admissions_go_of_ne (haccess name), hlimiter]
    exact h.windows name
  | @asked name' window hlimit hadmitted haccess hlimiter _ =>
    have hput := h.sound.put name' (window.ask task c.hall.machine.world.clock).2
    have htold {other : String} : stage.access? task c.hall.machine.world = some (.admitted other) ↔
        name' = other ∧ (window.ask task c.hall.machine.world.clock).1 = .admitted := by
      rw [haccess, Access.ofAdmission?_eq_admitted]
    by_cases hname : name = name'
    · subst hname
      have hasked := ((h.windows name).alike hlimit hadmitted).ask task
      rw [hlimiter, hput.present_eq]
      by_cases hturn : (window.ask task c.hall.machine.world.clock).1 = .admitted
      · rw [if_pos hturn] at hasked
        rw [admissions_go_of_admitted (htold.2 ⟨rfl, hturn⟩)]
        exact hasked
      · rw [if_neg hturn, List.append_nil] at hasked
        rw [admissions_go_of_ne fun heq => hturn (htold.1 heq).2]
        exact hasked
    · rw [admissions_go_of_ne fun heq => hname (htold.1 heq).1.symm, hlimiter, hput.others hname]
      exact h.windows name

theorem awake_go (h : c.Balances w) (hqueue : task ∈ c.hall.machine.queue)
    (hstage : c.hall.machine.stages[task]? = some stage) {other : Nat} {plan : Plan CallResult}
    (hplan : (c.go task stage).hall.machine.stages[other]? = some (.ready plan)) :
    other ∈ (c.go task stage).hall.machine.queue ∨
      ∃ ms earlier, (c.go task stage).trace other = .paused ms :: earlier := by
  have htask := (List.getElem?_eq_some_iff.1 hstage).1
  change (c.hall.machine.stages.set task _)[other]? = _ at hplan
  change other ∈ _ ++ (stage.move task c.hall.machine.world).woken ∨ _
  by_cases hother : other = task
  · subst hother
    rw [List.getElem?_set_self htask, Option.some_inj] at hplan
    have hgoes := Stage.goes other h.sound (h.placed (List.mem_of_getElem? hstage))
    rw [trace_go_self]
    rcases hgoes.pace hplan with hpace | ⟨ms, haccess⟩
    · rw [hpace]
      exact .inl (List.mem_append_left _ hqueue)
    · rw [haccess]
      exact .inr ⟨ms, _, rfl⟩
  · rw [List.getElem?_set_ne (Ne.symm hother)] at hplan
    rw [trace_go_of_ne hother]
    refine (h.awake hplan).imp_left fun hmem => List.mem_append_left _ ?_
    cases (stage.move task c.hall.machine.world).pace with
    | atOnce => exact hmem
    | later | asleep => exact (List.mem_erase_of_ne hother).2 hmem

theorem go (h : c.Balances w) (hqueue : task ∈ c.hall.machine.queue)
    (hstage : c.hall.machine.stages[task]? = some stage) : (c.go task stage).Balances w := by
  have hgoes := Stage.goes task h.sound (h.placed (List.mem_of_getElem? hstage))
  have hwindows := h.windows_go hgoes.turns
  obtain ⟨hclock, hproviders, hturns, -⟩ := hgoes
  refine ⟨?_, hproviders.trans h.providers, fun {stage'} hstage' => ?_, fun name => ?_, h.clients,
    h.awake_go hqueue hstage⟩
  · change (stage.move task c.hall.machine.world).world.limiter.Sound
    cases hturns with
    | aside hlimiter => exact hlimiter ▸ h.sound
    | asked _ _ _ hlimiter => exact hlimiter ▸ (h.sound.put _ _).sound
  · change stage'.Placed (stage.move task c.hall.machine.world).world.limiter
    rcases List.mem_or_eq_of_mem_set hstage' with hstage' | rfl
    · cases hturns with
      | aside hlimiter => exact hlimiter ▸ h.placed hstage'
      | asked _ _ _ hlimiter => exact hlimiter ▸ (h.placed hstage').put h.sound _ _
    · cases hturns with
      | aside _ hstage => exact .of_window hstage
      | asked _ _ _ _ hstage => exact hstage
  · change Window.Since _ _ (stage.move task c.hall.machine.world).world.clock _
    rw [hclock]
    exact hwindows name

theorem skip (h : c.Balances w) {rest : List Nat} (hqueue : c.hall.machine.queue = task :: rest)
    (hdone : ∀ stage, c.hall.machine.stages[task]? = some stage → stage.isFinished = true) :
    (c.atMachine { c.hall.machine with queue := rest }).Balances w where
  sound := h.sound
  providers := h.providers
  placed := h.placed
  windows := h.windows
  clients := h.clients
  awake {other plan} hplan := by
    refine (h.awake hplan).imp_left fun hmem => ?_
    rw [hqueue] at hmem
    refine (List.mem_cons.1 hmem).resolve_left ?_
    rintro rfl
    cases hdone _ hplan

theorem drop (h : c.Balances w) (hstage : c.hall.machine.stages[task]? = some stage) :
    (c.drop task stage).Balances w := by
  have hplaced := h.placed (List.mem_of_getElem? hstage)
  unfold Chronicle.drop
  cases hwindow : stage.window? with
  | none => exact ⟨h.sound, h.providers, h.placed, h.windows, h.clients, h.awake⟩
  | some number =>
    obtain ⟨name, hnumber⟩ : ∃ name,
        c.hall.machine.world.limiter.current.get? name = some number := by
      cases stage with
      | ready | finished => cases hwindow
      | inLine | atHead =>
        cases hwindow
        exact ⟨_, hplaced⟩
    have hleft := h.sound.leave_eq hnumber task
    have hput := h.sound.put name ((c.hall.machine.world.limiter.present name).leave task)
    rw [← hleft] at hput
    refine ⟨hput.sound, h.providers, fun hstage => ?_, fun name' => ?_, h.clients,
      fun hplan => (h.awake hplan).imp_left (List.mem_append_left _)⟩
    · change Stage.Placed (c.hall.machine.world.limiter.leave number task).2 _
      rw [hleft]
      exact (h.placed hstage).put h.sound _ _
    · change Window.Since _ _ _ ((c.hall.machine.world.limiter.leave number task).2.present name')
      by_cases hname : name' = name
      · subst hname
        rw [hput.present_eq]
        exact (h.windows name').alike rfl rfl
      · rw [hput.others hname]
        exact h.windows name'

theorem enter (h : c.Balances w) (r : Request) :
    ({ c with hall := c.hall.enter policy r } : Chronicle).Balances w where
  sound := h.sound
  providers := h.providers
  placed hstage := by
    rcases List.mem_append.1 hstage with hstage | hstage
    · exact h.placed hstage
    · obtain ⟨plan, -, rfl⟩ := List.mem_map.1 hstage
      exact trivial
  windows := h.windows
  clients {r' client} hclient := by
    rw [Hall.tasks, Hall.enter, List.flatMap_append, List.flatMap_singleton,
      List.mem_append] at hclient
    rcases hclient with hclient | hclient
    · exact h.clients hclient
    · obtain ⟨client', hmem, heq⟩ := List.mem_map.1 hclient
      cases heq
      rw [← h.providers]
      exact Request.mem_providers hmem
  awake {task plan} hplan := by
    rcases Machine.stages_enter hplan with hold | ⟨hle, plan', hnew, -⟩
    · exact (h.awake hold).imp_left (List.mem_append_left _)
    · have hlt := (List.getElem?_eq_some_iff.1 hnew).1
      exact .inl (List.mem_append_right _ (List.mem_range'_1.2 ⟨hle, by omega⟩))

theorem step (h : c.Balances w) (hstep : c.Step policy c') : c'.Balances w := by
  cases hstep with
  | go hqueue hstage _ _ => exact h.go hqueue hstage
  | drop hstage => exact h.drop hstage
  | skip hqueue hdone => exact h.skip hqueue hdone
  | other hstep =>
    cases hstep with
    | enter r => exact h.enter r
    | outside => exact ⟨h.sound, h.providers, h.placed, h.windows, h.clients, h.awake⟩
    | pass moment =>
      exact ⟨h.sound, h.providers, h.placed,
        fun name => (h.windows name).mono (Nat.le_max_left _ _), h.clients,
        fun hplan => (h.awake hplan).imp_left (List.mem_append_left _)⟩

theorem run (hsound : w.limiter.Sound) (hrun : (Chronicle.opened w).Run policy c) :
    c.Balances w := by
  induction hrun with
  | refl => exact opened hsound
  | step _ hstep ih => exact ih.step hstep

end Balances

/-- Whether a task can go on, and asks before it does anything else but count that it waited. -/
def AboutToAsk (c : Chronicle) (task client : Nat) : Prop :=
  task ∈ c.hall.machine.queue ∧
    ∃ plan, c.hall.machine.stages[task]? = some (.ready plan) ∧ plan.AsksNext client

/-- What holds of the questions and the admissions of all tasks, in a chronicle that began in a
    world. -/
structure Admits (w : World) (c : Chronicle) : Prop where
  clients {r : Request} {client : Nat × Provider} (h : (r, client) ∈ c.hall.tasks) :
    (w.clients[client.1]?).map (·.provider) = some client.2
  known {n : Note} (h : n ∈ c.log) : n.task < c.hall.tasks.length
  admitted {task client : Nat} {q : Question} {later earlier : List Access}
    (h : c.trace task = later ++ .asked client q :: earlier) :
    ∃ r p, c.hall.tasks[task]? = some (r, client, p) ∧ Paid p earlier
  /-- After each admission comes a question, before anything but the count of the wait. Until then
      the task is about to ask, and does unless it is dropped. -/
  asked {task : Nat} {name : String} {later earlier : List Access}
    (h : c.trace task = later ++ .admitted name :: earlier) :
    ∃ r client p, c.hall.tasks[task]? = some (r, client, p) ∧ name = p.name ∧
      ((∃ rest waited q, later = rest ++ .asked client q :: waited ∧
          ∀ access ∈ waited, access = .counted (.heldBack p)) ∨
        (∀ access ∈ later, access = .counted (.heldBack p)) ∧ c.AboutToAsk task client)
  /-- In no interval as long as a name's window are there more admissions than its quota. -/
  quota (name : String) (start : Nat) :
    ((c.admissions name).filter fun moment => start ≤ moment &&
      moment < start + (w.limiter.present name).limit.windowMs).length ≤
        (w.limiter.present name).limit.quota

end Chronicle

namespace Chronicle

variable {policy : RetryPolicy} {w : World} {c : Chronicle}

theorem Follows.task_of_trace {rule : Request → Nat × Provider → Rule}
    {P : Request → Nat × Provider → List Access → CallResult → Prop} (h : c.Follows rule P)
    {task : Nat} {access : Access} {later earlier : List Access}
    (htrace : c.trace task = later ++ access :: earlier) :
    ∃ r client, c.hall.tasks[task]? = some (r, client) := by
  have hmem : access ∈ c.trace task := htrace ▸ List.mem_append_right _ List.mem_cons_self
  obtain ⟨n, hn, hnote⟩ := List.mem_filterMap.1 (List.mem_reverse.1 hmem)
  have hsame : n.task = task := by
    by_contra hother
    rw [Note.accessOf?, if_neg hother] at hnote
    cases hnote
  exact ⟨_, _, List.getElem?_eq_getElem (h.size ▸ hsame ▸ h.known hn)⟩

theorem aboutToAsk (hfollows : c.Follows (fun _ => Deals) fun _ client => Attempt.Unpaid client.2)
    (hbalances : c.Balances w) {task : Nat} {r : Request} {client : Nat × Provider}
    (htask : c.hall.tasks[task]? = some (r, client)) (hpaid : Paid client.2 (c.trace task)) :
    c.AboutToAsk task client.1 := by
  have hlt := (List.getElem?_eq_some_iff.1 htask).1
  obtain ⟨stage, hstage⟩ : ∃ stage, c.hall.machine.stages[task]? = some stage :=
    ⟨_, List.getElem?_eq_getElem (hfollows.size ▸ hlt)⟩
  have hstands := hfollows.stages htask hstage
  have hwaits {name : String} {k : Except Failure Nat → Plan CallResult}
      (h : (Plan.awaitTurn name k).Follows (Deals client) (Attempt.Unpaid client.2)
        (c.trace task)) : False := by
    cases h.asksNext (fun _ _ => id) hpaid
  cases hstands with
  | ready h =>
    rcases hbalances.awake hstage with hqueue | ⟨ms, earlier, hpaused⟩
    · exact ⟨hqueue, _, hstage, h.asksNext (fun _ _ => id) hpaid⟩
    · rw [hpaused] at hpaid
      cases hpaid
  | inLine h | atHead h => exact (hwaits h).elim
  | finished h => exact absurd hpaid h

theorem admits_run (hsound : w.limiter.Sound) (hrun : (opened w).Run policy c) : c.Admits w := by
  have hfollows : c.Follows (fun _ => Deals) fun _ client => Attempt.Unpaid client.2 :=
    .run (Request.plan_deals policy) hrun
  have hbalances := Balances.run hsound hrun
  refine ⟨fun h => ?_, fun hn => hfollows.size ▸ hfollows.known hn, fun h => ?_, fun h => ?_,
    fun name => (hbalances.windows name).quota⟩
  · rw [← List.getElem?_map]
    exact hbalances.clients h
  · obtain ⟨r, client, htask⟩ := hfollows.task_of_trace h
    obtain ⟨rfl, hpaid⟩ := (Rule.Allows.at (h ▸ hfollows.allows htask)).asked rfl
    exact ⟨r, client.2, htask, hpaid⟩
  · obtain ⟨r, client, htask⟩ := hfollows.task_of_trace h
    have hallows := h ▸ hfollows.allows htask
    have hname := (Rule.Allows.at hallows).admitted rfl
    subst hname
    refine ⟨r, client.1, client.2, htask, rfl, ?_⟩
    refine (Deals.question_after hallows (.admitted _)).imp_right fun ⟨hlater, hstill⟩ => ?_
    exact ⟨hlater, aboutToAsk hfollows hbalances htask (h ▸ hstill)⟩

end Chronicle

/-- However calls to providers run together, whenever they come, whatever they are told and whoever
    is dropped: each question to a client is preceded by an admission of its own under the name of
    the client's provider, each admission is followed by one question unless its task is dropped,
    and in no interval as long as a provider's window are there more admissions than its quota. All
    that goes on in a hall is such a run, and so is all that a session does for a request. -/
theorem questions_have_admissions_of_their_own (policy : RetryPolicy) {w : World}
    (hsound : w.limiter.Sound) :
    (∀ c, (Chronicle.opened w).Run policy c → c.Admits w) ∧
      (∀ movers h, (Hall.opened w).Run policy movers h →
        ∃ c, (Chronicle.opened w).Run policy c ∧ c.hall = h ∧ c.gone = []) ∧
      ∀ (r : Request) enough collects fuel, ∃ c, (Chronicle.opened w).Run policy c ∧
        c.hall = ⟨((Machine.start w ((r.clients w).map (r.plan policy ·))).run
          enough collects fuel).2, [r.alone w]⟩ :=
  ⟨fun _ => Chronicle.admits_run hsound, fun _ _ => Chronicle.exists_run,
    Chronicle.run_of_session policy w⟩

/-- With a quota of one, a resolution asks at once, and who wants a fresh link has to wait. -/
theorem questions_have_admissions_of_their_own_with_one_waiting :
    let file : CachedFile := ⟨"a.mkv", 7, none, "link", .premiumize, 0, ∅⟩
    let w := World.start [.having .premiumize [file]] (.ofStandard ⟨1000, 1⟩) ⟨.memory, default⟩
      ⟨[], [], .common⟩ (fun _ => 0)
    let policy : RetryPolicy := ⟨3, 100, 5000⟩
    w.limiter.Sound ∧ ∃ c, (Chronicle.opened w).Run policy c ∧
      c.log.map (·.task) = [0, 0, 0, 1] ∧
      (c.trace 0).map (·.isAside) = [false, false, true] ∧
      c.admissions "premiumize" = [0] ∧ c.Admits w := by
  intro file w policy
  have hsound : w.limiter.Sound := (Limiter.atRest_ofStandard _).toSound
  let key : Key := .torrent "hash" "magnet"
  let enter (c : Chronicle) (r : Request) : Chronicle := { c with hall := c.hall.enter policy r }
  let go (c : Chronicle) (task : Nat) : Chronicle :=
    c.go task ((c.hall.machine.stages[task]?).getD (.finished (.ok .notCached)))
  have hgo {c : Chronicle} (hrun : (Chronicle.opened w).Run policy c) (task : Nat)
      (h : task ∈ c.hall.machine.queue ∧ task ∉ c.gone ∧
        (c.hall.machine.stages[task]?).any (!·.isFinished) = true) :
      (Chronicle.opened w).Run policy (go c task) := by
    obtain ⟨hqueue, hhere, hgoing⟩ := h
    refine hrun.step ?_
    cases hstage : c.hall.machine.stages[task]? with
    | none =>
      rw [hstage] at hgoing
      cases hgoing
    | some stage =>
      rw [hstage] at hgoing
      simp only [go, hstage, Option.getD_some]
      exact .go hqueue hstage (Bool.not_eq_true' _ ▸ hgoing) hhere
  have hentered : (Chronicle.opened w).Run policy
      (enter (enter (.opened w) (.everyone key)) (.one (.refresh key file))) :=
    (Chronicle.Run.refl.step (.other (.enter _))).step (.other (.enter _))
  have hchecked := hgo hentered 0 (by decide +kernel)
  have hadmitted := hgo hchecked 0 (by decide +kernel)
  have hasked := hgo hadmitted 0 (by decide +kernel)
  have hother := hgo hasked 1 (by decide +kernel)
  have hwaits := hgo hother 1 (by decide +kernel)
  have hadmits := (questions_have_admissions_of_their_own policy hsound).1 _ hwaits
  refine ⟨hsound, _, hwaits, ?_, ?_, ?_, hadmits⟩
  · decide +kernel
  · decide +kernel
  · decide +kernel

end LinkRelay
