import LinkRelay.Proofs.Relay.Deletion
set_option autoImplicit false

/-!
# Errands under way

A service that serves many callers has errands under way at once: between the parts of one, others
are begun and go on. A deleted path stays unknown through all of that as well, as long as no errand
that was under way when it was deleted still has something to write to it.
-/

namespace LinkRelay

def Errand.reads? : Errand → Option Nat
  | .next n => some n
  | _ => none

structure Underway where
  errand : Errand
  rest : Course Landing

structure BusyService where
  service : Service
  underway : List Underway

namespace BusyService

/-- Does the next part of a course, after which it is the last of those under way. -/
def carryOn (relay : Relay) (s : BusyService) (e : Errand) : Course Landing → BusyService
  | .done landing => { s with service := s.service.land landing }
  | .go part rest =>
    match (part.session relay).attempt.run s.service.world with
    | (.ok answer, world) => ⟨{ s.service with world }, s.underway ++ [⟨e, rest answer⟩]⟩
    | (.error _, world) => { s with service := { s.service with world } }

def isTaken (s : BusyService) (e : Errand) : Bool :=
  e.reads?.any fun n => s.underway.any fun u => u.errand.reads? == some n

inductive Move where
  | begin (e : Errand)
  | goOn (n : Nat)

def move (relay : Relay) (s : BusyService) : Move → BusyService
  | .begin e => if s.isTaken e then s else s.carryOn relay e (e.course s.service.streams)
  | .goOn n =>
    match s.underway[n]? with
    | none => s
    | some u => carryOn relay { s with underway := s.underway.eraseIdx n } u.errand u.rest

def run (relay : Relay) (s : BusyService) (moves : List Move) : BusyService :=
  moves.foldl (move relay) s

variable {relay : Relay} {path : String}

theorem run_carryOn (relay : Relay) (s : Service) (e : Errand) (c : Course Landing) :
    ∃ k, run relay (carryOn relay ⟨s, []⟩ e c) (List.replicate k (.goOn 0)) =
      ⟨s.landed (c.session relay s.world), []⟩ := by
  induction c generalizing s with
  | done landing => exact ⟨0, rfl⟩
  | go part rest ih =>
    rw [carryOn, Course.session]
    rcases hpart : (part.session relay).attempt.run s.world with ⟨halt | answer, w⟩
    · rw [Session.bind_of_error hpart]
      exact ⟨0, rfl⟩
    · rw [Session.bind_of_ok hpart]
      obtain ⟨k, hk⟩ := ih answer { s with world := w }
      exact ⟨k + 1, hk⟩

/-- An errand that nobody comes in between is served as a whole. -/
theorem run_alone (relay : Relay) (s : Service) (e : Errand) :
    ∃ k, run relay ⟨s, []⟩ (.begin e :: List.replicate k (.goOn 0)) =
      ⟨s.serve relay e, []⟩ := by
  obtain ⟨k, hk⟩ := run_carryOn relay s e (e.course s.streams)
  have hfree : isTaken ⟨s, []⟩ e = false := by cases e <;> rfl
  refine ⟨k, ?_⟩
  rw [s.serve_eq_landed, ← hk, run, List.foldl_cons, move, hfree]
  rfl

variable {s : BusyService}

def Quiet (relay : Relay) (path : String) (s : BusyService) : Move → Prop
  | .begin e => s.service.Quiet relay path e
  | .goOn _ => True

def QuietRun (relay : Relay) (path : String) : BusyService → List Move → Prop
  | _, [] => True
  | s, m :: rest => s.Quiet relay path m ∧ QuietRun relay path (s.move relay m) rest

/-- A service at which a path is unknown, with no errand under way that may write to it. -/
structure Forgets (path : String) (s : BusyService) : Prop where
  unknown : s.service.world.store.Unknown path
  spares : ∀ u ∈ s.underway, u.rest.Spares path

theorem Forgets.carryOn (h : s.Forgets path) (e : Errand) {c : Course Landing}
    (hc : c.SparesFrom relay path s.service.world) : (s.carryOn relay e c).Forgets path := by
  cases c with
  | done landing =>
    refine ⟨?_, h.spares⟩
    cases landing <;> exact h.unknown
  | go part rest =>
    have hkept := (Part.keeps_unknown relay hc.1).attempt s.service.world h.unknown
    rw [BusyService.carryOn]
    rcases hpart : (part.session relay).attempt.run s.service.world with ⟨halt | answer, w⟩
    · rw [hpart] at hkept
      exact ⟨hkept, h.spares⟩
    · rw [hpart] at hkept
      refine ⟨hkept, fun u hu => ?_⟩
      rcases List.mem_append.1 hu with hu | hu
      · exact h.spares u hu
      · rw [List.mem_singleton.1 hu]
        exact hc.2 answer w hpart

theorem Forgets.move (h : s.Forgets path) {m : Move} (hquiet : s.Quiet relay path m) :
    (s.move relay m).Forgets path := by
  cases m with
  | begin e =>
    rw [BusyService.move]
    split
    · exact h
    · exact h.carryOn e (Errand.sparesFrom_course hquiet h.unknown)
  | goOn n =>
    rw [BusyService.move]
    cases hu : s.underway[n]? with
    | none => exact h
    | some u =>
      have hrest : Forgets path { s with underway := s.underway.eraseIdx n } :=
        ⟨h.unknown, fun v hv => h.spares v (List.mem_of_mem_eraseIdx hv)⟩
      exact hrest.carryOn u.errand
        ((h.spares u (List.mem_of_getElem? hu)).sparesFrom h.unknown)

theorem Forgets.run (h : s.Forgets path) {moves : List Move}
    (hquiet : QuietRun relay path s moves) : (s.run relay moves).Forgets path := by
  induction moves generalizing s with
  | nil => exact h
  | cons m rest ih => exact ih (h.move hquiet.1) hquiet.2

end BusyService

/-- Once a deletion has returned, the path stays without records while errands of any number go on
    by turns, if none of those under way at the deletion has anything left to write to it, and none
    that is begun later adds it, writes to it, or refreshes a link on it. -/
theorem deleted_path_stays_unknown_among_errands (relay : Relay) {path : String}
    {s : BusyService} {known : Bool} {w : World}
    (hdelete : relay.deleteFile path s.service.world = (.ok known, w))
    (hspares : ∀ u ∈ s.underway, u.rest.Spares path) {moves : List BusyService.Move}
    (hquiet : BusyService.QuietRun relay path ⟨{ s.service with world := w }, s.underway⟩ moves) :
    let later := BusyService.run relay ⟨{ s.service with world := w }, s.underway⟩ moves
    path ∉ later.service.world.store.paths ∧ later.service.world.store.records path = [] := by
  have hforgets : BusyService.Forgets path ⟨{ s.service with world := w }, s.underway⟩ :=
    ⟨Relay.unknown_of_deleteFile hdelete, hspares⟩
  have hlater := (hforgets.run hquiet).unknown
  exact ⟨hlater, hlater.records⟩

/-- A lookup that has read a stale record writes what it hears, though the path is deleted before
    the provider answers. -/
example :
    let film : CachedFile := ⟨"film", 3, none, "http://host/film", .premiumize, 0, ∅⟩
    let w := World.start [.having .premiumize [film]] (.ofStandard .standard)
      ⟨.memory, ⟨0, 0, 0, 0⟩⟩ ⟨[], [], .common⟩ (fun n => Time.ofSeconds n)
    let relay : Relay := ⟨⟨0, 0, 0⟩⟩
    let s := Service.serve relay ⟨w, []⟩ (.upsert "/film" .premiumize .missing)
    let lookedUp := BusyService.run relay ⟨s, []⟩ [.begin (.fileLink "/film" (.torrent "hash" ""))]
    let deleted := lookedUp.run relay [.begin (.deleteFile "/film"), .goOn 1]
    let answered := deleted.run relay [.goOn 0, .goOn 0, .goOn 0]
    lookedUp.service.world.store.paths = ["/film"] ∧ deleted.service.world.store.paths = [] ∧
      answered.service.world.store.paths = ["/film"] := by
  decide +kernel

end LinkRelay
