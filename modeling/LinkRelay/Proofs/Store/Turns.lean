import LinkRelay.Proofs.Store.Sequence
set_option autoImplicit false

/-!
# The turns of concurrent writes

Under any schedule the store is, between two changes, what the writes that are over made of it one
after another, in the order in which they got the store's lock. A change that is being written is
bound to end as its write would have ended alone. One lemma for each thing that a step can do keeps
this, and so every run does.
-/

namespace LinkRelay

namespace Writers

def takesTurn (s : Writers) (i : Nat) : Bool :=
  match s.calls[i]? with
  | some (.write _, .waiting) => s.line.head? = some i ∧ s.changing = none
  | _ => false

def turn (s : Writers) (i : Nat) : List Nat := if s.takesTurn i then [i] else []

/-- The writes of a run in the order in which they got the store's lock. -/
def turns (s : Writers) : List Nat → List Nat
  | [] => []
  | i :: schedule => s.turn i ++ (s.step i).turns schedule

theorem run_append (s : Writers) (schedule : List Nat) (i : Nat) :
    s.run (schedule ++ [i]) = (s.run schedule).step i := by
  rw [run, List.foldl_append]
  rfl

theorem turns_append (s : Writers) (before after : List Nat) :
    s.turns (before ++ after) = s.turns before ++ (s.run before).turns after := by
  induction before generalizing s with
  | nil => rfl
  | cons i before ih =>
    rw [List.cons_append, turns, turns, ih, List.append_assoc]
    rfl

theorem turns_extend (s : Writers) (before after : List Nat) :
    s.turns before <+: s.turns (before ++ after) := by
  rw [turns_append]
  exact List.prefix_append _ _

variable {s : Writers} {i j : Nat} {c : Call} {stage : CallStage}

theorem getElem?_move (h : s.calls[i]? = some (c, stage)) (next : CallStage) :
    (s.move i next).calls[i]? = some (c, next) := by
  rw [move, List.getElem?_modify_eq, h]
  rfl

theorem getElem?_move_of_ne (h : j ≠ i) (next : CallStage) :
    (s.move i next).calls[j]? = s.calls[j]? :=
  List.getElem?_modify_ne _ _ (Ne.symm h)

theorem calls_move (s : Writers) (i : Nat) (next : CallStage) :
    (s.move i next).calls.map (·.1) = s.calls.map (·.1) := by
  apply List.ext_getElem?
  intro j
  rw [List.getElem?_map, List.getElem?_map, move, List.getElem?_modify]
  cases s.calls[j]? with
  | none => rfl
  | some c =>
    by_cases h : i = j <;> simp [h]

/-- What the call with the lock has come to, if any call has it, beside the store that the writes
    before made. -/
inductive Phase (base : Store) (s : Writers) : List Nat → Prop where
  | free (hstore : s.store = base) (hchanging : s.changing = none) : Phase base s []
  | loaded {i : Nat} {path : String} {provider : Provider} {outcome : FileOutcome} {now : Time}
      (hstage : s.calls[i]? =
        some (.write (.upsert path provider outcome now), .loaded (base.records path)))
      (hstore : s.store = base) (hchanging : s.changing = none) : Phase base s [i]
  | changing {i : Nat} {w : Write} {previous : Option (List Record)} {answer : StoreAnswer}
      (hstage : s.calls[i]? = some (.write w, .changing previous answer))
      (hsettle : s.store.settle w previous answer = base.write w)
      (hfiles : s.store.backend.files = base.backend.files.apply w)
      (hchanging : s.changing = some i) : Phase base s [i]

theorem Phase.congr {base : Store} {holder : List Nat} {s' : Writers} (h : Phase base s holder)
    (hstages : ∀ i ∈ holder, s'.calls[i]? = s.calls[i]?) (hstore : s'.store = s.store)
    (hchanging : s'.changing = s.changing) : Phase base s' holder := by
  cases h with
  | free hbase hfree => exact .free (hstore.trans hbase) (hchanging.trans hfree)
  | loaded hstage hbase hfree =>
    exact .loaded ((hstages _ List.mem_cons_self).trans hstage) (hstore.trans hbase)
      (hchanging.trans hfree)
  | changing hstage hsettle hfiles hheld =>
    exact .changing ((hstages _ List.mem_cons_self).trans hstage) (hstore.symm ▸ hsettle)
      (hstore.symm ▸ hfiles) (hchanging.trans hheld)

/-- The writes that are over, in the order of their turns, and the one that has the lock. -/
structure Orderly (store : Store) (calls : List Call) (done holder : List Nat) (s : Writers) :
    Prop where
  made : s.calls.map (·.1) = calls
  distinct : (done ++ s.line).Nodup
  ended : ∀ before i after, done = before ++ i :: after → ∃ w, s.calls[i]? =
    some (.write w, .ended ((store.afterWrites (writesAt calls before)).write w).1)
  line : ∃ rest, s.line = holder ++ rest ∧ ∀ i ∈ rest, ∃ w, s.calls[i]? = some (.write w, .waiting)
  others : ∀ (i : Nat) (w : Write) (stage : CallStage), s.calls[i]? = some (.write w, stage) →
    i ∉ done ++ s.line → stage = .arriving
  looks : ∀ (i : Nat) (q : Look) (stage : CallStage), s.calls[i]? = some (.look q, stage) →
    stage = .arriving ∨ ∃ answer, stage = .ended answer
  phase : Phase (store.afterWrites (writesAt calls done)) s holder

namespace Orderly

variable {store : Store} {calls : List Call} {done holder : List Nat}

theorem start (store : Store) (calls : List Call) :
    Orderly store calls [] [] (start store calls) where
  made := by
    rw [Writers.start, List.map_map]
    exact List.map_id _
  distinct := List.nodup_nil
  ended before i after h := by cases before <;> cases h
  line := ⟨[], rfl, nofun⟩
  others i w stage h _ := by
    rw [Writers.start, List.getElem?_map, Option.map_eq_some_iff] at h
    obtain ⟨c, -, hc⟩ := h
    exact (congrArg Prod.snd hc).symm
  looks i q stage h := by
    rw [Writers.start, List.getElem?_map, Option.map_eq_some_iff] at h
    obtain ⟨c, -, hc⟩ := h
    exact .inl (congrArg Prod.snd hc).symm
  phase := .free rfl rfl

theorem made_of_stage (h : Orderly store calls done holder s)
    (hi : s.calls[i]? = some (c, stage)) : calls[i]? = some c := by
  rw [← h.made, List.getElem?_map, hi]
  rfl

theorem isOver_of_done (h : Orderly store calls done holder s) (hi : i ∈ done) :
    ∃ w answer, s.calls[i]? = some (.write w, .ended answer) := by
  obtain ⟨before, after, hdone⟩ := List.append_of_mem hi
  obtain ⟨w, hover⟩ := h.ended before i after hdone
  exact ⟨w, _, hover⟩

theorem store_of_free (h : Orderly store calls done holder s) (hfree : s.changing = none) :
    s.store = store.afterWrites (writesAt calls done) := by
  cases h.phase with
  | free hstore => exact hstore
  | loaded _ hstore => exact hstore
  | changing _ _ _ hchanging =>
    rw [hfree] at hchanging
    cases hchanging

theorem phase_of_mem (h : Orderly store calls done holder s) (hi : i ∈ holder) :
    ∃ w stage, s.calls[i]? = some (.write w, stage) ∧ stage ≠ .arriving ∧ stage ≠ .waiting ∧
      stage.isOver = false := by
  cases h.phase with
  | free => cases hi
  | loaded hstage | changing hstage =>
    obtain rfl := List.mem_singleton.1 hi
    exact ⟨_, _, hstage, nofun, nofun, rfl⟩

theorem stage_of_mem_line (h : Orderly store calls done holder s) (hi : i ∈ s.line) :
    ∃ w stage, s.calls[i]? = some (.write w, stage) ∧ stage ≠ .arriving ∧ stage.isOver = false := by
  obtain ⟨rest, hline, hrest⟩ := h.line
  rw [hline] at hi
  rcases List.mem_append.1 hi with hi | hi
  · obtain ⟨w, stage, hstage, harriving, -, hover⟩ := h.phase_of_mem hi
    exact ⟨w, stage, hstage, harriving, hover⟩
  · obtain ⟨w, hstage⟩ := hrest i hi
    exact ⟨w, _, hstage, nofun, rfl⟩

theorem not_mem_of_arriving (h : Orderly store calls done holder s)
    (hi : s.calls[i]? = some (c, .arriving)) : i ∉ done ++ s.line := by
  rw [List.mem_append]
  rintro (hdone | hline)
  · obtain ⟨w, answer, hover⟩ := h.isOver_of_done hdone
    rw [hi] at hover
    cases hover
  · obtain ⟨w, stage, hstage, harriving, -⟩ := h.stage_of_mem_line hline
    rw [hi] at hstage
    cases hstage
    exact harriving rfl

theorem behind (h : Orderly store calls done holder s) (hfirst : s.line.head? = some i) :
    ∃ rest, s.line = i :: rest ∧ (∀ j ∈ holder, j = i) ∧ (∀ j ∈ done, j ≠ i) ∧
      ∀ j ∈ rest, j ≠ i ∧ ∃ w, s.calls[j]? = some (.write w, .waiting) := by
  obtain ⟨rest, hline, hholder, hrest⟩ : ∃ rest, s.line = i :: rest ∧ (∀ j ∈ holder, j = i) ∧
      ∀ j ∈ rest, ∃ w, s.calls[j]? = some (.write w, .waiting) := by
    obtain ⟨rest, hline, hrest⟩ := h.line
    rw [hline] at hfirst ⊢
    cases h.phase with
    | free =>
      obtain ⟨rest, rfl⟩ := List.head?_eq_some_iff.1 hfirst
      exact ⟨rest, rfl, nofun, fun j hj => hrest j (List.mem_cons_of_mem _ hj)⟩
    | loaded | changing =>
      cases hfirst
      exact ⟨rest, rfl, fun j hj => List.mem_singleton.1 hj, hrest⟩
  have hdistinct := h.distinct
  rw [hline] at hdistinct
  obtain ⟨-, htail, hapart⟩ := List.nodup_append.1 hdistinct
  refine ⟨rest, hline, hholder, fun j hj => hapart j hj i List.mem_cons_self, fun j hj => ?_⟩
  exact ⟨fun he => (List.nodup_cons.1 htail).1 (he ▸ hj), hrest j hj⟩

theorem looks_move (h : Orderly store calls done holder s) {w : Write}
    (hi : s.calls[i]? = some (.write w, stage)) (next : CallStage) {q : Look} {at_ : CallStage}
    (hj : (s.move i next).calls[j]? = some (.look q, at_)) :
    at_ = .arriving ∨ ∃ answer, at_ = .ended answer := by
  by_cases he : j = i
  · rw [he] at hj
    cases (getElem?_move hi next).symm.trans hj
  · exact h.looks j q at_ ((getElem?_move_of_ne he next).symm.trans hj)

theorem looked (h : Orderly store calls done holder s) {q : Look}
    (hi : s.calls[i]? = some (.look q, .arriving)) (answer : StoreAnswer) :
    Orderly store calls done holder (s.move i (.ended answer)) := by
  have hout := h.not_mem_of_arriving hi
  have hkept : ∀ j ∈ done ++ s.line, (s.move i (.ended answer)).calls[j]? = s.calls[j]? :=
    fun j hj => getElem?_move_of_ne (fun he : j = i => hout (he ▸ hj)) _
  obtain ⟨rest, hline, hrest⟩ := h.line
  constructor
  case made => exact (calls_move _ _ _).trans h.made
  case distinct => exact h.distinct
  case ended =>
    intro before j after hdone
    rw [hkept j (List.mem_append_left _ (hdone ▸ by simp))]
    exact h.ended before j after hdone
  case line =>
    refine ⟨rest, hline, fun j hj => ?_⟩
    rw [hkept j (List.mem_append_right _ (hline ▸ List.mem_append_right _ hj))]
    exact hrest j hj
  case others =>
    intro j w stage hj hmem
    by_cases he : j = i
    · rw [he, getElem?_move hi] at hj
      cases hj
    · rw [getElem?_move_of_ne he] at hj
      exact h.others j w stage hj hmem
  case looks =>
    intro j q stage hj
    by_cases he : j = i
    · rw [he, getElem?_move hi] at hj
      cases hj
      exact .inr ⟨answer, rfl⟩
    · rw [getElem?_move_of_ne he] at hj
      exact h.looks j q stage hj
  case phase =>
    exact h.phase.congr
      (fun j hj => hkept j (List.mem_append_right _ (hline ▸ List.mem_append_left _ hj))) rfl rfl

theorem arrive (h : Orderly store calls done holder s) {w : Write}
    (hi : s.calls[i]? = some (.write w, .arriving)) :
    Orderly store calls done holder { s.move i .waiting with line := s.line ++ [i] } := by
  have hout := h.not_mem_of_arriving hi
  have hkept : ∀ j ∈ done ++ s.line, (s.move i .waiting).calls[j]? = s.calls[j]? :=
    fun j hj => getElem?_move_of_ne (fun he : j = i => hout (he ▸ hj)) _
  obtain ⟨rest, hline, hrest⟩ := h.line
  constructor
  case made => exact (calls_move _ _ _).trans h.made
  case distinct =>
    change (done ++ (s.line ++ [i])).Nodup
    rw [← List.append_assoc]
    exact List.nodup_append.2 ⟨h.distinct, List.nodup_singleton i, fun j hj k hk he =>
      hout (List.mem_singleton.1 hk ▸ he ▸ hj)⟩
  case ended =>
    intro before j after hdone
    refine (h.ended before j after hdone).imp fun w hover => ?_
    exact (hkept j (List.mem_append_left _ (hdone ▸ by simp))).trans hover
  case line =>
    refine ⟨rest ++ [i], ?_, fun j hj => ?_⟩
    · change s.line ++ [i] = _
      rw [hline, List.append_assoc]
    · rcases List.mem_append.1 hj with hj | hj
      · refine (hrest j hj).imp fun w hwaiting => ?_
        have hmem : j ∈ s.line := hline ▸ List.mem_append_right _ hj
        exact (hkept j (List.mem_append_right _ hmem)).trans hwaiting
      · rw [List.mem_singleton.1 hj]
        exact ⟨w, getElem?_move hi _⟩
  case others =>
    intro j w stage hj hmem
    have hne : j ≠ i := fun he => hmem (he ▸ by simp)
    have hmem' : j ∉ done ++ s.line := fun hj => hmem (by
      change j ∈ done ++ (s.line ++ [i])
      rw [← List.append_assoc]
      exact List.mem_append_left _ hj)
    exact h.others j w stage ((getElem?_move_of_ne hne _).symm.trans hj) hmem'
  case looks => exact fun j q stage => h.looks_move hi _
  case phase =>
    exact h.phase.congr
      (fun j hj => hkept j (List.mem_append_right _ (hline ▸ List.mem_append_left _ hj))) rfl rfl

theorem advance (h : Orderly store calls done holder s) {w : Write}
    (hfirst : s.line.head? = some i) (hi : s.calls[i]? = some (.write w, stage)) {next : CallStage}
    {store' : Store} {changing : Option Nat}
    (hphase : Phase (store.afterWrites (writesAt calls done))
      { s.move i next with store := store', changing } [i]) :
    Orderly store calls done [i] { s.move i next with store := store', changing } := by
  obtain ⟨rest, hline, -, hdone, hrest⟩ := h.behind hfirst
  constructor
  case made => exact (calls_move _ _ _).trans h.made
  case distinct => exact h.distinct
  case ended =>
    intro before j after hj
    refine (h.ended before j after hj).imp fun w hover => ?_
    exact (getElem?_move_of_ne (hdone j (hj ▸ by simp)) _).trans hover
  case line =>
    refine ⟨rest, hline, fun j hj => (hrest j hj).2.imp fun w hwaiting => ?_⟩
    exact (getElem?_move_of_ne (hrest j hj).1 _).trans hwaiting
  case others =>
    intro j w stage hj hmem
    have hne : j ≠ i := by
      rintro rfl
      exact hmem (List.mem_append_right _ (hline ▸ List.mem_cons_self))
    exact h.others j w stage ((getElem?_move_of_ne hne _).symm.trans hj) hmem
  case looks => exact fun j q stage => h.looks_move hi _
  case phase => exact hphase

theorem finish (h : Orderly store calls done holder s) {w : Write}
    (hfirst : s.line.head? = some i) (hi : s.calls[i]? = some (.write w, stage))
    {answer : StoreAnswer} {store' : Store}
    (hwrite : (store.afterWrites (writesAt calls done)).write w = (answer, store')) :
    Orderly store calls (done ++ [i]) [] (s.finish i answer store') := by
  obtain ⟨rest, hline, -, hdone, hrest⟩ := h.behind hfirst
  have hleft : (s.finish i answer store').line = rest := by
    rw [Writers.finish, hline]
    exact List.erase_cons_head i rest
  have hmade := h.made_of_stage hi
  constructor
  case made => exact (calls_move _ _ _).trans h.made
  case distinct =>
    rw [hleft, List.append_assoc, List.singleton_append, ← hline]
    exact h.distinct
  case ended =>
    intro before j after hj
    rcases List.eq_nil_or_concat after with rfl | ⟨after, k, rfl⟩
    · obtain ⟨rfl, hlast⟩ := List.append_inj' hj rfl
      cases hlast
      refine ⟨w, ?_⟩
      rw [hwrite]
      exact getElem?_move hi _
    · rw [List.concat_eq_append, ← List.cons_append, ← List.append_assoc] at hj
      obtain ⟨rfl, -⟩ := List.append_inj' hj rfl
      refine (h.ended before j after rfl).imp fun w hover => ?_
      exact (getElem?_move_of_ne (hdone j (by simp)) _).trans hover
  case line =>
    refine ⟨rest, hleft, fun j hj => (hrest j hj).2.imp fun w hwaiting => ?_⟩
    exact (getElem?_move_of_ne (hrest j hj).1 _).trans hwaiting
  case others =>
    intro j w stage hj hmem
    rw [hleft, List.append_assoc] at hmem
    have hne : j ≠ i := by
      rintro rfl
      exact hmem (by simp)
    exact h.others j w stage ((getElem?_move_of_ne hne _).symm.trans hj) (hline ▸ hmem)
  case looks => exact fun j q stage => h.looks_move hi _
  case phase =>
    refine .free ?_ rfl
    rw [writesAt_append hmade, Store.afterWrites_append, hwrite]
    rfl

theorem enter (h : Orderly store calls done holder s) {w : Write}
    (hfirst : s.line.head? = some i) (hi : s.calls[i]? = some (.write w, .waiting))
    (hfree : s.changing = none) :
    ∃ done' holder', Orderly store calls done' holder' (s.enter i w) ∧
      done' ++ holder' = done ++ [i] := by
  have hstore := h.store_of_free hfree
  cases w with
  | upsert path provider outcome now =>
    refine ⟨done, [i], h.advance hfirst hi ?_, rfl⟩
    refine @Phase.loaded _ _ i path provider outcome now ?_ hstore hfree
    rw [← hstore]
    exact getElem?_move hi _
  | delete path =>
    rw [Writers.enter]
    cases hknown : s.store.backend.files.get? path with
    | none =>
      refine ⟨done ++ [i], [], h.finish hfirst hi ?_, List.append_nil _⟩
      rw [← hstore]
      exact Store.write_delete_of_unknown hknown
    | some previous =>
      refine ⟨done, [i], h.advance hfirst hi ?_, rfl⟩
      refine .changing (getElem?_move hi _) ?_ ?_ rfl
      · rw [← hstore]
        exact (Store.write_delete hknown).symm
      · rw [← hstore]
        rfl

theorem mem_holder (h : Orderly store calls done holder s) {w : Write}
    (hi : s.calls[i]? = some (.write w, stage)) (harriving : stage ≠ .arriving)
    (hwaiting : stage ≠ .waiting) (hover : stage.isOver = false) : i ∈ holder := by
  have hmem : i ∈ done ++ s.line := by
    by_contra hout
    exact harriving (h.others i w stage hi hout)
  obtain ⟨rest, hline, hrest⟩ := h.line
  rw [hline, List.mem_append, List.mem_append] at hmem
  rcases hmem with hmem | hmem | hmem
  · obtain ⟨w, answer, hi'⟩ := h.isOver_of_done hmem
    cases hi.symm.trans hi'
    cases hover
  · exact hmem
  · obtain ⟨w, hi'⟩ := hrest i hmem
    cases hi.symm.trans hi'
    exact absurd rfl hwaiting

theorem first_of_mem_holder (h : Orderly store calls done holder s) (hi : i ∈ holder) :
    holder = [i] ∧ s.line.head? = some i := by
  have hholder : holder = [i] := by
    cases h.phase with
    | free => cases hi
    | loaded | changing => rw [List.mem_singleton.1 hi]
  obtain ⟨rest, hline, -⟩ := h.line
  rw [hline, hholder]
  exact ⟨rfl, rfl⟩

theorem put (h : Orderly store calls done holder s) {w : Write} {records : List Record}
    (hi : s.calls[i]? = some (.write w, .loaded records)) :
    Orderly store calls done holder (s.put i records w) := by
  obtain ⟨rfl, hfirst⟩ := h.first_of_mem_holder (h.mem_holder hi nofun nofun rfl)
  cases h.phase with
  | changing hstage => cases hi.symm.trans hstage
  | @loaded _ path provider outcome now hstage hstore hfree =>
    cases hi.symm.trans hstage
    refine h.advance hfirst hi (.changing (getElem?_move hi _) ?_ ?_ rfl)
    · rw [hstore]
      exact (Store.write_upsert path provider outcome now).symm
    · rw [hstore]
      rfl

theorem settle (h : Orderly store calls done holder s) {w : Write}
    {previous : Option (List Record)} {answer : StoreAnswer}
    (hi : s.calls[i]? = some (.write w, .changing previous answer)) :
    holder = [i] ∧ Orderly store calls (done ++ [i]) []
      (s.finish i (s.store.settle w previous answer).1 (s.store.settle w previous answer).2) := by
  obtain ⟨rfl, hfirst⟩ := h.first_of_mem_holder (h.mem_holder hi nofun nofun rfl)
  cases h.phase with
  | loaded hstage => cases hi.symm.trans hstage
  | changing hstage hsettle =>
    cases hi.symm.trans hstage
    exact ⟨rfl, h.finish hfirst hi hsettle.symm⟩

end Orderly

theorem Orderly.step {store : Store} {calls : List Call} {done holder : List Nat}
    (h : Orderly store calls done holder s) (i : Nat) :
    ∃ done' holder', Orderly store calls done' holder' (s.step i) ∧
      done' ++ holder' = done ++ holder ++ s.turn i := by
  have hstay : ∀ s', Orderly store calls done holder s' → s.turn i = [] →
      ∃ done' holder', Orderly store calls done' holder' s' ∧
        done' ++ holder' = done ++ holder ++ s.turn i := by
    intro s' h' hturn
    rw [hturn]
    exact ⟨done, holder, h', (List.append_nil _).symm⟩
  unfold Writers.step
  split
  next q hi =>
    have hturn : s.turn i = [] := by simp [turn, takesTurn, hi]
    split
    · exact hstay _ (h.looked hi _) hturn
    · exact hstay _ h hturn
  next w hi => exact hstay _ (h.arrive hi) (by simp [turn, takesTurn, hi])
  next w hi =>
    split
    next hgoes =>
      have hturn : s.turn i = [i] := by simp [turn, takesTurn, hi, hgoes]
      have hholder : holder = [] := by
        obtain ⟨-, -, hholder, -⟩ := h.behind hgoes.1
        refine List.eq_nil_iff_forall_not_mem.2 fun j hj => ?_
        obtain ⟨w', stage, hstage, -, hwaiting, -⟩ := h.phase_of_mem hj
        rw [hholder j hj] at hstage
        cases hi.symm.trans hstage
        exact hwaiting rfl
      rw [hturn, hholder, List.append_nil]
      exact h.enter hgoes.1 hi hgoes.2
    next hwaits => exact hstay _ h (by simpa [turn, takesTurn, hi] using hwaits)
  next w records hi =>
    have hturn : s.turn i = [] := by simp [turn, takesTurn, hi]
    split
    · exact hstay _ (h.put hi) hturn
    · exact hstay _ h hturn
  next w previous answer hi =>
    obtain ⟨rfl, hfinish⟩ := h.settle hi
    exact ⟨done ++ [i], [], hfinish, by simp [turn, takesTurn, hi]⟩
  next hlook harriving hwaiting hloaded hchanging =>
    refine hstay _ h ?_
    have hnot : s.takesTurn i = false := by
      unfold takesTurn
      split
      next hi => exact absurd hi (hwaiting _)
      · rfl
    rw [turn, hnot]
    rfl

theorem Orderly.run {store : Store} {calls : List Call} {done holder : List Nat}
    (h : Orderly store calls done holder s) (schedule : List Nat) :
    ∃ done' holder', Orderly store calls done' holder' (s.run schedule) ∧
      done' ++ holder' = done ++ holder ++ s.turns schedule := by
  induction schedule generalizing s done holder with
  | nil => exact ⟨done, holder, h, (List.append_nil _).symm⟩
  | cons i schedule ih =>
    obtain ⟨done', holder', h', hturn⟩ := h.step i
    obtain ⟨done'', holder'', h'', hturns⟩ := ih h'
    rw [hturn, List.append_assoc] at hturns
    exact ⟨done'', holder'', h'', hturns⟩

theorem orderly_run (store : Store) (calls : List Call) (schedule : List Nat) :
    ∃ done holder, Orderly store calls done holder ((start store calls).run schedule) ∧
      (start store calls).turns schedule = done ++ holder := by
  obtain ⟨done, holder, h, hturns⟩ := (Orderly.start store calls).run schedule
  exact ⟨done, holder, h, hturns.symm⟩

end Writers

end LinkRelay
