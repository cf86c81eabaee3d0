import LinkRelay.Proofs.Resolve.Interleaving
set_option autoImplicit false

/-!
# What calls come to, given what they can be answered

A manner says what a client can answer and what a caller can be told at the limiter. A call keeps to
a manner when all its results have a property as long as it is told nothing else. Each step of any
call leaves every client to its manner, so in whatever order calls are carried out, all results have
the property.
-/

namespace LinkRelay

/-- A kind of clients, and all that a call over one of them can be told. -/
structure Manner where
  client : Client → Prop
  turn : Except Failure Nat → Prop
  answer : (q : Question) → Except Failure q.Answer → Prop
  admits (waited : Nat) : turn (.ok waited)
  noted {c : Client} (h : client c) (q : Question) : client (c.noted q)
  answered {c : Client} (h : client c) (moments : Nat → Time) (wire : Http.Wire) (q : Question) :
    answer q (c.answer moments wire q).1 ∧ client (c.answer moments wire q).2.1

def Manner.Grants (M : Manner) (l : Limiter) (p : Provider) : Prop :=
  M.turn (.error (.internal (.zeroQuota p.name))) ∨ 0 < (l.present p.name).limit.quota

namespace Plan

variable {α β : Type} {M : Manner} {p : Provider} {client : Nat}

/-- A plan of a call to a provider over a client whose result has a property, if it is told nothing
    but what the manner allows. -/
inductive Within (M : Manner) (p : Provider) (client : Nat) (P : α → Prop) : Plan α → Prop
  | done {a : α} (h : P a) : Within M p client P (.done a)
  | checkCircuit {p' : Provider} {k : Bool → Plan α}
    (h : ∀ isOpen, Within M p client P (k isOpen)) : Within M p client P (.checkCircuit p' k)
  | openCircuit {p' : Provider} {ms : Nat} {k : Plan α} (h : Within M p client P k) :
    Within M p client P (.openCircuit p' ms k)
  | count {s : Series} {k : Plan α} (h : Within M p client P k) : Within M p client P (.count s k)
  | awaitTurn {k : Except Failure Nat → Plan α}
    (h : ∀ r, M.turn r → Within M p client P (k r)) : Within M p client P (.awaitTurn p.name k)
  | place {q : Question} {k : Nat → Plan α} (h : ∀ delay, Within M p client P (k delay)) :
    Within M p client P (.place client q k)
  | receive {q : Question} {k : Except Failure q.Answer → Plan α}
    (h : ∀ a, M.answer q a → Within M p client P (k a)) : Within M p client P (.receive client q k)
  | pause {ms : Nat} {k : Plan α} (h : Within M p client P k) : Within M p client P (.pause ms k)
  | readClock {k : Time → Plan α} (h : ∀ now, Within M p client P (k now)) :
    Within M p client P (.readClock k)

theorem Within.bind {P : α → Prop} {Q : β → Prop} {plan : Plan α} {f : α → Plan β}
    (h : plan.Within M p client P) (hf : ∀ a, P a → (f a).Within M p client Q) :
    (plan.bind f).Within M p client Q := by
  induction h with
  | done h => exact hf _ h
  | checkCircuit _ ih => exact .checkCircuit ih
  | openCircuit _ ih => exact .openCircuit ih
  | count _ ih => exact .count ih
  | awaitTurn _ ih => exact .awaitTurn ih
  | place _ ih => exact .place ih
  | receive _ ih => exact .receive ih
  | pause _ ih => exact .pause ih
  | readClock _ ih => exact .readClock ih

end Plan

namespace World

variable {M : Manner} {p p' : Provider} {client client' : Nat} {w w' : World}

inductive Touched (p : Provider) (client : Nat) (w : World) : World → Prop
  | aside (breaker : Breaker) (metrics : Metrics) (calendar : Nat → Time) :
    Touched p client w { w with breaker, metrics, calendar }
  | place (q : Question) : Touched p client w (w.place client q).2
  | receive (q : Question) : Touched p client w (w.receive client q).2
  | put (window : Window) (hlimit : window.limit = (w.limiter.present p.name).limit) :
    Touched p client w { w with limiter := w.limiter.put p.name window }

/-- A world in which a call to a provider over a client is told what the manner allows. -/
structure Suits (M : Manner) (p : Provider) (client : Nat) (w : World) : Prop where
  sound : w.limiter.Sound
  client : ∃ c, w.clients[client]? = some c ∧ M.client c
  grants : M.Grants w.limiter p

theorem Suits.atClients (h : w.Suits M p client) {c' : Client}
    (hc' : ∀ c, w.clients[client]? = some c → M.client c → client = client' → M.client c')
    (calendar : Nat → Time) (wire : Http.Wire) :
    { w with clients := w.clients.set client' c', calendar, wire }.Suits M p client := by
  obtain ⟨hsound, ⟨c, hc, hmanner⟩, hgrants⟩ := h
  refine ⟨hsound, ?_, hgrants⟩
  by_cases hsame : client = client'
  · refine ⟨c', ?_, hc' c hc hmanner hsame⟩
    subst hsame
    exact List.getElem?_set_self (List.getElem?_eq_some_iff.1 hc).1
  · exact ⟨c, (List.getElem?_set_ne (Ne.symm hsame)).trans hc, hmanner⟩

theorem Suits.place (h : w.Suits M p client) (client' : Nat) (q : Question) :
    (w.place client' q).2.Suits M p client := by
  unfold World.place
  split
  next c' hc' =>
    refine h.atClients (fun c hc hmanner hsame => ?_) w.calendar w.wire
    rw [hsame, hc'] at hc
    cases hc
    exact M.noted hmanner q
  next => exact h

theorem Suits.receive (h : w.Suits M p client) (client' : Nat) (q : Question) :
    (w.receive client' q).2.Suits M p client := by
  unfold World.receive
  split
  next c' hc' =>
    refine h.atClients (fun c hc hmanner hsame => ?_) _ _
    rw [hsame, hc'] at hc
    cases hc
    exact (M.answered hmanner _ _ q).2
  next => exact h

theorem Suits.answer (h : w.Suits M p client) (q : Question) :
    M.answer q (w.receive client q).1 := by
  obtain ⟨c, hc, hmanner⟩ := h.client
  rw [World.receive, hc]
  exact (M.answered hmanner _ _ q).1

theorem Suits.put (h : w.Suits M p client) (name : String) {window : Window}
    (hlimit : window.limit = (w.limiter.present name).limit) :
    { w with limiter := w.limiter.put name window }.Suits M p client := by
  obtain ⟨hsound, hclient, hgrants⟩ := h
  have hput := hsound.put name window
  refine ⟨hput.sound, hclient, hgrants.imp_right fun hquota => ?_⟩
  by_cases hname : p.name = name
  · subst hname
    rw [hput.present_eq, hlimit]
    exact hquota
  · rw [hput.others hname]
    exact hquota

theorem Suits.touched (h : w.Suits M p client) (htouched : w.Touched p' client' w') :
    w'.Suits M p client := by
  cases htouched with
  | aside => exact ⟨h.sound, h.client, h.grants⟩
  | place q => exact h.place client' q
  | receive q => exact h.receive client' q
  | put window hlimit => exact h.put p'.name hlimit

theorem Touched.number {n : Nat} (h : w.Touched p' client' w') (hsound : w.limiter.Sound)
    (hn : w.limiter.current.get? p.name = some n) : w'.limiter.current.get? p.name = some n := by
  cases h with
  | aside => exact hn
  | place q => rw [w.place_limiter]; exact hn
  | receive q => rw [w.receive_limiter]; exact hn
  | put window =>
    have hput := hsound.put p'.name window
    by_cases hname : p.name = p'.name
    · have hnumber : w.limiter.number p.name = n := by
        rw [Limiter.number, Limiter.window, hn]
      rw [hname] at hnumber
      rw [hname, hput.number, hnumber]
    · rw [hput.numbers hname]
      exact hn

end World

inductive Stage.Within {α : Type} (M : Manner) (p : Provider) (client : Nat) (P : α → Prop)
    (l : Limiter) : Stage α → Prop
  | ready {plan : Plan α} (h : plan.Within M p client P) : Within M p client P l (.ready plan)
  | inLine {number : Nat} {k : Except Failure Nat → Plan α}
    (hnumber : l.current.get? p.name = some number)
    (h : ∀ r, M.turn r → (k r).Within M p client P) :
    Within M p client P l (.inLine number p.name k)
  | atHead {number since : Nat} {k : Except Failure Nat → Plan α}
    (hnumber : l.current.get? p.name = some number)
    (h : ∀ r, M.turn r → (k r).Within M p client P) :
    Within M p client P l (.atHead number p.name since k)
  | finished {a : α} (h : P a) : Within M p client P l (.finished a)

namespace Window

variable (w : Window) (caller : Caller) (now : Nat)

theorem ask_limit : (w.ask caller now).2.limit = w.limit := by
  unfold ask
  dsimp only
  split
  · rfl
  · split
    · rfl
    · split <;> rfl

theorem quota_of_neverPossible (h : (w.ask caller now).1 = .neverPossible) : w.limit.quota = 0 := by
  unfold ask at h
  dsimp only at h
  split at h
  · cases h
  · split at h
    · assumption
    · split at h <;> cases h

end Window

namespace Stage

variable {α : Type} {M : Manner} {p p' : Provider} {client client' task : Nat} {P : α → Prop}
variable {w w' : World} {stage : Stage α}

theorem Within.touched (h : stage.Within M p client P w.limiter)
    (htouched : w.Touched p' client' w') (hsound : w.limiter.Sound) :
    stage.Within M p client P w'.limiter := by
  cases h with
  | ready h => exact .ready h
  | inLine hnumber h => exact .inLine (htouched.number hsound hnumber) h
  | atHead hnumber h => exact .atHead (htouched.number hsound hnumber) h
  | finished h => exact .finished h

structure Keeps (M : Manner) (p : Provider) (client : Nat) (P : α → Prop) (w : World)
    (move : Move α) : Prop where
  touched : w.Touched p client move.world
  stage : move.stage.Within M p client P move.world.limiter

theorem keeps_asked (waited since : World → Nat) {k : Except Failure Nat → Plan α}
    {window : Window} {number : Nat} (hplan : ∀ r, M.turn r → (k r).Within M p client P)
    (hsuits : w.Suits M p client)
    (hnumber : w.limiter.number p.name = number)
    (hlimit : window.limit = (w.limiter.present p.name).limit) :
    Keeps M p client P w
      (match ((window.ask task w.clock).1, (window.ask task w.clock).2.first?,
          { w with limiter := w.limiter.put p.name (window.ask task w.clock).2 }) with
        | (.admitted, next, w) => ⟨.ready (k (.ok (waited w))), w, next.toList, .atOnce⟩
        | (.neverPossible, next, w) =>
          ⟨.ready (k (.error (.internal (.zeroQuota p.name)))), w, next.toList, .atOnce⟩
        | (.notBefore t, _, w) => ⟨.atHead number p.name (since w) k, w, [], .later t⟩
        | (.notFirst, _, w) => ⟨.inLine number p.name k, w, [], .asleep⟩) := by
  have htouched : w.Touched p client
      { w with limiter := w.limiter.put p.name (window.ask task w.clock).2 } :=
    .put _ ((window.ask_limit task w.clock).trans hlimit)
  have hplaced := (hsuits.sound.put p.name (window.ask task w.clock).2).number
  have hrefused := window.quota_of_neverPossible task w.clock
  rw [hnumber] at hplaced
  rw [hlimit] at hrefused
  generalize w.limiter.put p.name (window.ask task w.clock).2 = limiter at htouched hplaced
  generalize (window.ask task w.clock).1 = answer at hrefused
  rcases answer with _ | _ | _ | t
  · exact ⟨htouched, .inLine hplaced hplan⟩
  · -- a window with a quota refuses nobody
    have hturn := hsuits.grants.resolve_right (Nat.not_lt.2 (Nat.le_of_eq (hrefused rfl)))
    exact ⟨htouched, .ready (hplan _ hturn)⟩
  · exact ⟨htouched, .ready (hplan _ (M.admits _))⟩
  · exact ⟨htouched, .atHead hplaced hplan⟩

theorem keeps_moveAgain {number since : Nat} {k : Except Failure Nat → Plan α}
    (hplan : ∀ r, M.turn r → (k r).Within M p client P) (hsuits : w.Suits M p client)
    (hnumber : w.limiter.current.get? p.name = some number) :
    Keeps M p client P w (moveAgain task number p.name since k w) := by
  have hsame : w.limiter.number p.name = number := by rw [Limiter.number, Limiter.window, hnumber]
  rw [moveAgain, World.askWindow_of_get? hsuits.sound hnumber]
  exact keeps_asked (fun w => w.clock - since) (fun _ => since) hplan hsuits hsame rfl

theorem keeps_plan {plan : Plan α} (h : plan.Within M p client P) (hsuits : w.Suits M p client) :
    Keeps M p client P w (plan.move task w) := by
  cases h with
  | done h => exact ⟨.aside w.breaker w.metrics w.calendar, .finished h⟩
  | checkCircuit h => exact ⟨.aside _ w.metrics w.calendar, .ready (h _)⟩
  | openCircuit h => exact ⟨.aside _ w.metrics w.calendar, .ready h⟩
  | count h => exact ⟨.aside w.breaker _ w.calendar, .ready h⟩
  | @awaitTurn k h =>
    rw [Plan.move, hsuits.sound.arrive_eq]
    dsimp only
    rw [w.askWindow_put hsuits.sound]
    exact keeps_asked (fun _ => 0) World.clock h hsuits rfl rfl
  | place h => exact ⟨.place _, .ready (h _)⟩
  | receive h => exact ⟨.receive _, .ready (h _ (hsuits.answer _))⟩
  | @pause ms k h =>
    cases ms with
    | zero => exact ⟨.aside w.breaker w.metrics w.calendar, .ready h⟩
    | succ ms => exact ⟨.aside w.breaker w.metrics w.calendar, .ready h⟩
  | readClock h => exact ⟨.aside w.breaker w.metrics _, .ready (h _)⟩

theorem Within.keeps (h : stage.Within M p client P w.limiter) (task : Nat)
    (hsuits : w.Suits M p client) : Keeps M p client P w (stage.move task w) := by
  cases h with
  | ready h => exact keeps_plan h hsuits
  | inLine hnumber h => exact keeps_moveAgain h hsuits hnumber
  | atHead hnumber h => exact keeps_moveAgain h hsuits hnumber
  | finished h => exact ⟨.aside w.breaker w.metrics w.calendar, .finished h⟩

end Stage

namespace Machine

variable {α : Type} {M : Provider → Manner} {P : Provider → α → Prop}
variable {calls : List (Nat × Provider)} {m m' : Machine α} {asked : Option Nat}

/-- A machine whose tasks are calls to providers over clients that keep to manners. -/
structure Within (M : Provider → Manner) (P : Provider → α → Prop) (calls : List (Nat × Provider))
    (m : Machine α) : Prop where
  size : m.stages.length = calls.length
  sound : m.world.limiter.Sound
  suits {call : Nat × Provider} (h : call ∈ calls) : m.world.Suits (M call.2) call.2 call.1
  stages {task : Nat} {call : Nat × Provider} {stage : Stage α} (hcall : calls[task]? = some call)
    (hstage : m.stages[task]? = some stage) :
    stage.Within (M call.2) call.2 call.1 (P call.2) m.world.limiter
  finishes {f : Finish α} (h : f ∈ m.finishes) :
    ∃ call, calls[f.task]? = some call ∧ P call.2 f.result

theorem Within.keeps (h : m.Within M P calls) {task : Nat} {stage : Stage α}
    (hstage : m.stages[task]? = some stage) :
    ∃ call, calls[task]? = some call ∧
      Stage.Keeps (M call.2) call.2 call.1 (P call.2) m.world (stage.move task m.world) := by
  have htask : task < calls.length := h.size ▸ (List.getElem?_eq_some_iff.1 hstage).1
  have hcall := List.getElem?_eq_getElem htask
  exact ⟨_, hcall, (h.stages hcall hstage).keeps task (h.suits (List.getElem_mem htask))⟩

theorem Within.moved (h : m.Within M P calls) {task : Nat} {stage : Stage α}
    (hstage : m.stages[task]? = some stage) :
    (m.moved task (stage.move task m.world)).Within M P calls := by
  obtain ⟨call, hcall, htouched, hmoved⟩ := h.keeps hstage
  have hmem := List.mem_of_getElem? hcall
  generalize stage.move task m.world = move at htouched hmoved
  have hset : (m.stages.set task move.stage)[task]? = some move.stage :=
    List.getElem?_set_self (List.getElem?_eq_some_iff.1 hstage).1
  refine ⟨List.length_set.trans h.size, ((h.suits hmem).touched htouched).sound,
    fun hcall' => (h.suits hcall').touched htouched, fun {other call' stage'} hcall' hstage' => ?_,
    fun {f} hf => ?_⟩
  · change (m.stages.set task move.stage)[other]? = _ at hstage'
    by_cases hsame : task = other
    · subst hsame
      obtain rfl : call = call' := Option.some.inj (hcall.symm.trans hcall')
      obtain rfl : move.stage = stage' := Option.some.inj (hset.symm.trans hstage')
      exact hmoved
    · rw [List.getElem?_set_ne hsame] at hstage'
      exact (h.stages hcall' hstage').touched htouched h.sound
  · rcases mem_finishes_moved.1 hf with hf | ⟨a, ha, rfl⟩
    · exact h.finishes hf
    · rw [ha] at hmoved
      cases hmoved with
      | finished hresult => exact ⟨call, hcall, hresult⟩

theorem Within.passTo (h : m.Within M P calls) (moment : Nat) :
    (m.passTo moment).Within M P calls where
  size := h.size
  sound := h.sound
  suits hcall := ⟨(h.suits hcall).sound, (h.suits hcall).client, (h.suits hcall).grants⟩
  stages := h.stages
  finishes := h.finishes

theorem Within.step (h : m.Within M P calls) (hstep : m.Step asked m') : m'.Within M P calls := by
  cases hstep with
  | go hqueue hstage hgoing => exact h.moved hstage
  | pass hqueue hnext => exact h.passTo _

/-- However calls run together, their results are those that their manners allow. -/
theorem Within.runs (h : m.Within M P calls) {askeds : List (Option Nat)}
    (hruns : m.Runs askeds m') : m'.Within M P calls := by
  induction hruns with
  | refl m => exact h
  | step hstep _ ih => exact ih (h.step hstep)

theorem Within.start {w : World} {plan : Nat × Provider → Plan α} (hsound : w.limiter.Sound)
    (hsuits : ∀ call ∈ calls, w.Suits (M call.2) call.2 call.1)
    (hplan : ∀ call ∈ calls, (plan call).Within (M call.2) call.2 call.1 (P call.2)) :
    (Machine.start w (calls.map plan)).Within M P calls where
  size := by rw [Machine.start, List.length_map, List.length_map]
  sound := hsound
  suits hcall := hsuits _ hcall
  stages {task call stage} hcall hstage := by
    change ((calls.map plan).map Stage.ready)[task]? = _ at hstage
    rw [List.getElem?_map, List.getElem?_map, hcall] at hstage
    cases hstage
    exact .ready (hplan call (List.mem_of_getElem? hcall))
  finishes hf := absurd hf List.not_mem_nil

end Machine

structure Manner.Allows (M : Manner) (p : Provider) (P : Except Failure Outcome → Prop) : Prop where
  turn {f : Failure} (h : M.turn (.error f)) : P (.error f)
  error {q : Question} {f : Failure} (h : M.answer q (.error f)) : P (.error f)
  listed {key : Key} {files : List CachedFile} (h : M.answer (.files key) (.ok files)) :
    P (.ok (.cached files))
  linked {file : CachedFile} (h : file.provider = p) (link : String) (now : Time) :
    P (.ok (.cached [{ file with link, lastChecked := now }]))
  notCached : P (.ok .notCached)

namespace Attempt

variable {α β : Type} {M : Manner} {p : Provider} {client : Nat}

theorem within_bind {P : Except Failure α → Prop} {Q : Except Failure β → Prop} {x : Attempt α}
    {f : α → Attempt β} (hx : x.run.Within M p client P)
    (hok : ∀ a, P (.ok a) → (f a).run.Within M p client Q)
    (herror : ∀ f, P (.error f) → Q (.error f)) : (x >>= f).run.Within M p client Q := by
  refine Plan.Within.bind hx fun r hr => ?_
  cases r with
  | ok a => exact hok a hr
  | error f => exact .done (herror f hr)

theorem within_awaitTurn (M : Manner) (p : Provider) (client : Nat) :
    (awaitTurn p).run.Within M p client fun r => ∀ f, r = .error f → M.turn (.error f) := by
  refine within_bind (P := M.turn) (.awaitTurn fun r hr => .done hr) (fun waited _ => ?_) ?_
  · split
    · exact .count (.done nofun)
    · exact .done nofun
  · rintro f hf _ ⟨rfl⟩
    exact hf

theorem within_ask (M : Manner) (p : Provider) (client : Nat) (q : Question) :
    (ask client q).run.Within M p client (M.answer q) :=
  .place fun _ => .pause (.receive fun _ ha => .done ha)

variable {P : Except Failure Outcome → Prop}

theorem within_resolve (h : M.Allows p P) (client : Nat) (key : Key) :
    (resolve client p key).run.Within M p client P := by
  have hturn := within_awaitTurn M p client
  refine within_bind hturn (fun _ _ => ?_) fun f hf => h.turn (hf f rfl)
  refine within_bind (within_ask M p client (.isCached key)) (fun isCached _ => ?_) fun f => h.error
  cases isCached with
  | false => exact .done h.notCached
  | true =>
    refine within_bind hturn (fun _ _ => ?_) fun f hf => h.turn (hf f rfl)
    refine within_bind (within_ask M p client (.files key)) (fun files hfiles => ?_)
      fun f => h.error
    split
    · exact .done h.notCached
    · exact .done (h.listed hfiles)

theorem within_refresh {file : CachedFile} (h : M.Allows file.provider P) (client : Nat)
    (key : Key) : (refresh client key file).run.Within M file.provider client P := by
  have hturn := within_awaitTurn M file.provider client
  refine within_bind hturn (fun _ _ => ?_) fun f hf => h.turn (hf f rfl)
  refine within_bind (within_ask M _ client (.link key file)) (fun link _ => ?_) fun f => h.error
  cases link with
  | none => exact .done h.notCached
  | some link => exact .readClock fun now => .done (h.linked rfl link now)

end Attempt

namespace RetryPolicy

variable {policy : RetryPolicy} {M : Manner} {p : Provider} {client : Nat}
variable {P Q : CallResult → Prop} {attempt : Attempt Outcome}

theorem within_concede (policy : RetryPolicy) {f : Failure} (h : Q (.ok (.ofFailure f))) :
    (policy.concede p f).Within M p client Q := by
  unfold concede
  dsimp only
  split
  · exact .openCircuit (.count (.count (.done h)))
  · exact .count (.done h)

theorem within_settle {go : Failure → Plan CallResult} (hanswer : ∀ r, P r → Q (answer r))
    (hgo : ∀ f, f.isFatal = false → P (.error f) → (go f).Within M p client Q) {r : CallResult}
    (hr : P r) : (policy.settle p go r).Within M p client Q := by
  cases r with
  | ok outcome => exact .count (.done (hanswer _ hr))
  | error f =>
    have hconceded := hanswer _ hr
    cases hfatal : f.isFatal with
    | true =>
      rw [answer_of_fatal hfatal] at hconceded
      rw [settle, if_pos hfatal]
      exact .done hconceded
    | false =>
      rw [answer_of_not_fatal hfatal] at hconceded
      rw [settle, if_neg (Bool.not_eq_true _ ▸ hfatal)]
      split
      · exact hgo f hfatal hr
      · exact within_concede policy hconceded

theorem within_attempts (hattempt : attempt.run.Within M p client P)
    (hanswer : ∀ r, P r → Q (answer r)) (left : Nat) :
    (policy.attempts p attempt left).Within M p client Q := by
  induction left with
  | zero =>
    refine hattempt.bind fun r hr => within_settle hanswer (fun f hfatal hf => ?_) hr
    have hconceded := hanswer _ hf
    rw [answer_of_not_fatal hfatal] at hconceded
    exact within_concede policy hconceded
  | succ left ih =>
    exact hattempt.bind fun r hr => within_settle hanswer (fun _ _ _ => .count (.pause ih)) hr

theorem within_call (hattempt : attempt.run.Within M p client P)
    (hanswer : ∀ r, P r → Q (answer r)) (hskipped : Q (.ok .notCached)) :
    (policy.call p attempt).Within M p client Q := by
  refine .checkCircuit fun isOpen => ?_
  cases isOpen with
  | true => exact .count (.count (.done hskipped))
  | false => exact within_attempts hattempt hanswer policy.retries

end RetryPolicy

theorem PolicyCall.within_attempt {M : Manner} {P : CallResult → Prop} (c : PolicyCall)
    (h : M.Allows c.provider P) (client : Nat) :
    (c.attempt client).run.Within M c.provider client P := by
  cases c with
  | resolve key p => exact Attempt.within_resolve h client key
  | refresh key file => exact Attempt.within_refresh h client key

end LinkRelay
