import LinkRelay.Proofs.Relay.RemotePaths
import LinkRelay.Proofs.Store.Loading
set_option autoImplicit false

/-!
# Records that were demoted when the store was opened

A record that could not be served became a provider error of 1970 when the state file was opened.
It is stale as soon as the wait for provider errors is over since then, so that the first walk over
its path asks about it, unless the walk ends before.
-/

namespace LinkRelay

def Record.IsDemoted (r : Record) : Prop := ∃ old : Record, old.Unservable ∧ old.Reopened r

theorem Record.IsDemoted.isStale {r : Record} (h : r.IsDemoted) {policy : Staleness} {now : Time}
    (hwait : Time.ofSeconds policy.providerError < now) : r.IsStale policy now := by
  obtain ⟨old, hold, hreopened⟩ := h
  rw [hreopened.eq_of_unservable hold]
  refine ⟨policy.providerError, rfl, ?_⟩
  change (0 : Int) + _ < now
  rwa [Int.zero_add]

namespace Relay

variable {relay : Relay} {path : String} {key : Key} {remote : String}
variable {w w' : World} {r : Record} {verdict : Verdict} {v : Visit}
variable {before earlier later : List Record} {visits passed rest : List Visit}
variable {result : Except Halt CachedFile × World}

structure Goes (w w' : World) : Prop where
  atRest : w'.AtRest
  calendar : ∃ n, ∀ k, w'.calendar k = w.calendar (k + n)
  policy : w'.store.policy = w.store.policy

theorem Goes.trans {w'' : World} (h : Goes w w') (h' : Goes w' w'') : Goes w w'' :=
  ⟨h'.atRest, World.later_trans h.calendar h'.calendar, h'.policy.trans h.policy⟩

theorem goes_of_onward (h : w'.AtRest) (honward : w.Onward w') : Goes w w' :=
  ⟨h, honward.calendar, by rw [honward.store]⟩

theorem goes_of_upsert {p : Provider} {outcome : FileOutcome} {answer : Except Halt Record}
    (h : w.AtRest) (hupsert : Session.upsert path p outcome w = (answer, w')) : Goes w w' := by
  have hworld := congrArg Prod.snd hupsert
  have hcase : (Session.upsert path p outcome w).2 =
    { w.readWall.2 with store := (w.store.upsertAt path p outcome w.wall).2 } := rfl
  obtain rfl := hcase.symm.trans hworld
  refine ⟨⟨h.limiter, h.patient⟩, (World.onward_readWall w).calendar, ?_⟩
  change (w.store.upsertAt path p outcome w.wall).2.policy = w.store.policy
  unfold Store.upsertAt
  dsimp only
  split <;> rfl

theorem goes_of_ask {p : Provider} {answer : Except Halt Outcome} (h : w.AtRest)
    (hask : relay.policy.resolveProvider key p w.readWall.2 = (answer, w')) : Goes w w' := by
  obtain ⟨⟨result, mid⟩, hanswer, hmid, honward, -⟩ :=
    PolicyCall.answered relay.policy (.resolve key p) h.atReadWall
  have hworld := congrArg Prod.snd (hask.symm.trans hanswer)
  dsimp only at hworld
  subst hworld
  exact goes_of_onward hmid ((World.onward_readWall w).trans honward)

theorem Visited.goes (h : w.AtRest) (hvisited : relay.Visited path key remote r w verdict w') :
    Goes w w' := by
  cases hvisited with
  | fresh => exact goes_of_onward h.atReadWall (World.onward_readWall w)
  | without _ hask hupsert | found _ hask hupsert | unwritten _ hask hupsert =>
    have hmid := goes_of_ask h hask
    exact hmid.trans (goes_of_upsert hmid.atRest hupsert)
  | fatal _ hask => exact goes_of_ask h hask

theorem Visits.goes (h : w.AtRest) (hvisits : relay.Visits path key remote w visits w') :
    Goes w w' := by
  induction visits generalizing w with
  | nil =>
    cases hvisits
    exact ⟨h, ⟨0, fun _ => rfl⟩, rfl⟩
  | cons first rest ih =>
    obtain ⟨hfirst, hrest⟩ := hvisits
    have hgoes := hfirst.goes h
    exact hgoes.trans (ih hgoes.atRest hrest)

theorem visits_append : relay.Visits path key remote w (passed ++ rest) w' ↔
    ∃ mid, relay.Visits path key remote w passed mid ∧
      relay.Visits path key remote mid rest w' := by
  induction passed generalizing w with
  | nil => simp [Visits]
  | cons first passed ih => simp only [List.cons_append, Visits, ih]; tauto

theorem Walk.reaches
    (h : relay.Walk path key remote before (earlier ++ r :: later) w visits result) :
    (∃ v, visits.getLast? = some v ∧ v.record ∈ earlier ∧ v.verdict.goesOn = false) ∨
      ∃ passed v rest, visits = passed ++ v :: rest ∧ passed.map (·.record) = earlier ∧
        v.record = r := by
  obtain ⟨missed, horder⟩ := h.order
  have hshort : visits.map (·.record) <+: earlier →
      ∃ v, visits.getLast? = some v ∧ v.record ∈ earlier ∧ v.verdict.goesOn = false := by
    intro hprefix
    by_contra hnone
    have hall : ∀ v ∈ visits, v.verdict.goesOn = true := by
      intro v hv
      by_contra hstop
      have hlast := h.last_of_stop hv (Bool.eq_false_iff.2 hstop)
      exact hnone ⟨v, hlast, hprefix.subset (List.mem_map_of_mem hv), Bool.eq_false_iff.2 hstop⟩
    have hlength := hprefix.length_le
    rw [h.whole hall, List.length_append, List.length_cons] at hlength
    omega
  rcases List.append_eq_append_iff.1 horder with ⟨left, hearlier, -⟩ | ⟨onward, hvisited, hrest⟩
  · exact .inl (hshort ⟨left, hearlier.symm⟩)
  · cases onward with
    | nil => exact .inl (hshort ⟨[], by rw [hvisited, List.append_nil, List.append_nil]⟩)
    | cons first onward =>
      obtain ⟨passed, others, rfl, hpassed, hothers⟩ := List.map_eq_append_iff.1 hvisited
      obtain ⟨v, rest, rfl, hv, -⟩ := List.map_eq_cons_iff.1 hothers
      rw [List.cons_append, List.cons.injEq] at hrest
      exact .inr ⟨passed, v, rest, rfl, hpassed, hv.trans hrest.1.symm⟩

/-- The provider of a record is asked in a world, and what its answer says of the file is among the
    path's records in the end. Only where there is no answer, or the answer cannot be written, does
    all end with that failure. -/
def Rechecks (relay : Relay) (path : String) (key : Key) (remote : String) (r : Record) (w : World)
    (result : Except Halt CachedFile × World) : Prop :=
  ∃ answer mid, relay.policy.resolveProvider key r.provider w.readWall.2 = (answer, mid) ∧
    match answer with
    | .ok outcome => r.told (outcome.forFile remote) mid.wall ∈ result.2.store.records path ∨
        ∃ f, (Session.upsert path r.provider (outcome.forFile remote) mid).1 =
          .error (.failure f) ∧ result.1 = .error (.failure f)
    | .error halt => ∃ f, halt = .failure f ∧ f.isFatal = true ∧ result.1 = .error halt

theorem Walk.mem_records (h : relay.Walk path key remote before earlier w visits result)
    (hv : v ∈ visits) : v.verdict.record v.record ∈ result.2.store.records path := by
  rw [h.records]
  exact List.mem_append_left _ (List.mem_append_right _ (List.mem_map_of_mem hv))

theorem Walk.rechecks (h : relay.Walk path key remote before earlier w visits result)
    (hv : v ∈ visits) (hvisited : relay.Visited path key remote v.record w' v.verdict v.after)
    (hstale : v.record.IsStale w'.store.policy w'.wall) :
    relay.Rechecks path key remote v.record w' result := by
  have hrecord := h.mem_records hv
  generalize hverdict : v.verdict = verdict at hvisited hrecord
  generalize v.after = after at hvisited
  cases hvisited with
  | fresh hfresh => exact absurd hstale hfresh
  | without _ hask | found _ hask => exact ⟨_, _, hask, .inl hrecord⟩
  | fatal _ hask hfatal => exact ⟨_, _, hask, _, rfl, hfatal, h.error_of_failed hv hverdict⟩
  | unwritten _ hask hupsert =>
    exact ⟨_, _, hask, .inr ⟨_, congrArg Prod.fst hupsert, h.error_of_failed hv hverdict⟩⟩

/-- A walk asks about a record, in the world that the records before it left, unless one of those
    brings the walk to its end: its provider has the file, or it fails. -/
def ComesTo (relay : Relay) (path : String) (key : Key) (remote : String) (earlier : List Record)
    (r : Record) (w : World) (visits : List Visit) (result : Except Halt CachedFile × World) :
    Prop :=
  (∃ v, visits.getLast? = some v ∧ v.record ∈ earlier ∧ v.verdict.goesOn = false) ∨
    ∃ passed rest w', passed ++ rest = visits ∧ passed.map (·.record) = earlier ∧
      relay.Visits path key remote w passed w' ∧ relay.Rechecks path key remote r w' result

theorem Walk.comesTo (hrest : w.AtRest)
    (h : relay.Walk path key remote before (earlier ++ r :: later) w visits result)
    (hdemoted : r.IsDemoted)
    (hwait : ∀ n, Time.ofSeconds w.store.policy.providerError < w.calendar n) :
    relay.ComesTo path key remote earlier r w visits result := by
  rcases h.reaches with hstop | ⟨passed, v, rest, rfl, hpassed, rfl⟩
  · exact .inl hstop
  · obtain ⟨w', hbefore, hvisited, -⟩ := visits_append.1 h.steps
    have hgoes := hbefore.goes hrest
    have hstale : v.record.IsStale w'.store.policy w'.wall := by
      apply hdemoted.isStale
      rw [hgoes.policy]
      obtain ⟨n, hn⟩ := hgoes.calendar
      rw [World.wall, hn 0]
      exact hwait (0 + n)
    have hv : v ∈ passed ++ v :: rest := List.mem_append_right _ List.mem_cons_self
    exact .inr ⟨passed, v :: rest, w', rfl, hpassed, hbefore, h.rechecks hv hvisited hstale⟩

end Relay

/-- A state file that opens keeps its paths, and for each the records that it lists last, in their
    order. A record changes exactly if it claims a file that it cannot serve, so that afterwards
    every record that claims one has it. Where no record has one, the first walk over the path
    asks about each that was changed, and stores the answer. -/
theorem opened_files_keep_their_records_and_recheck_demoted_ones {d : Disk} {content : Bytes}
    {b : Backend} (hread : d.read = .ok (some content)) (hopened : Backend.opened d = .ok b) :
    ∃ listed, Snapshot.Lists content listed ∧
      (∀ path, path ∈ b.files.keys ↔ path ∈ listed.map (·.1)) ∧
      (∀ before path records after, listed = before ++ (path, records) :: after →
        path ∉ after.map (·.1) →
          List.Forall₂ (fun old r => old.Reopened r ∧ (r ≠ old ↔ old.Unservable)) records
            (b.records path)) ∧
      (∀ path, ∀ r ∈ b.records path, r.toFile?.isSome = true ↔ r.state = .cached) ∧
      ∀ (relay : Relay) (path : String) (key : Key) (w : World), w.AtRest →
        w.store.records path = b.records path → ((b.records path).map (·.provider)).Nodup →
        (∀ r ∈ b.records path, r.state ≠ .cached) →
        (∀ n, Time.ofSeconds w.store.policy.providerError < w.calendar n) →
          let remote := remotePathFor path (b.records path)
          let served := relay.fileLink path key w
          ∃ visits, relay.Walk path key remote [] (b.records path) w visits served ∧
            ∀ earlier r later, b.records path = earlier ++ r :: later → r.IsDemoted →
              relay.ComesTo path key remote earlier r w visits served := by
  obtain ⟨listed, hlists, rfl⟩ := (Backend.opened_eq_ok_iff hread).1 hopened
  have hserves : ∀ path, ∀ r ∈ Catalog.records (Catalog.repair (.ofList listed)) path,
      r.toFile?.isSome = true ↔ r.state = .cached :=
    fun path r hr => r.toFile?_isSome_of_isConsistent (Catalog.isConsistent_of_mem_repair hr)
  refine ⟨listed, hlists, fun path => ?_, ?_, hserves, ?_⟩
  · rw [Catalog.keys_repair, Dictionary.mem_keys_ofList]
  · rintro before path records after rfl hlast
    have hreopened := Catalog.reopened_repair (.ofList (before ++ (path, records) :: after)) path
    rw [Catalog.records_ofList_of_last hlast] at hreopened
    exact hreopened.imp fun old r h => ⟨h, h.ne_iff⟩
  · intro relay path key w hrest hrecords hnodup huncached hwait remote served
    dsimp only [Backend.records] at hrecords hnodup huncached
    have hnone : (w.store.records path).findSome? Record.toFile? = none := by
      rw [hrecords, List.findSome?_eq_none_iff]
      intro r hr
      rw [← Option.not_isSome_iff_eq_none, hserves path r hr]
      exact huncached r hr
    obtain ⟨visits, hwalk⟩ := Relay.revalidate_walks relay key remote hrest
      ((List.nil_append _).trans hrecords.symm).symm hnodup
    have hserved := relay.fileLink_of_none key hnone
    rw [hrecords] at hserved
    have hwalked : relay.Walk path key remote [] _ w visits served := hserved ▸ hwalk
    refine ⟨visits, hwalked, fun earlier r later hsplit hdemoted => ?_⟩
    dsimp only [Backend.records] at hsplit
    rw [hsplit] at hwalked
    exact hwalked.comesTo hrest hdemoted hwait

/-- A film whose link was lost is found again by the first walk, at a new one. -/
theorem opened_files_keep_their_records_and_recheck_demoted_ones_of_film :
    let film : CachedFile := ⟨"a.mkv", 3, none, "http://x/p", .premiumize, 0, .empty⟩
    let unservable : Record := ⟨.premiumize, .cached, 5, none, some 3, none, some "a.mkv", .empty⟩
    let c : Catalog := ⟨[("/m/a.mkv", [unservable])], by decide⟩
    let d : Disk := ⟨"state.json", .folder, .file ((Snapshot.write? c).getD []), []⟩
    let b : Backend := ⟨c.repair, some d⟩
    let w := World.start [.scripted (.holding .premiumize [film])] (.ofStandard .standard)
      ⟨b, ⟨5, 5, 5, 5⟩⟩ ⟨[], [], .common⟩ (fun _ => Time.ofSeconds 10)
    let served := (Relay.mk ⟨0, 0, 0⟩).fileLink "/m/a.mkv" (.torrent "hash" "magnet") w
    Backend.opened d = .ok b ∧ b.files.keys = ["/m/a.mkv"] ∧
      b.records "/m/a.mkv" = [unservable.demote] ∧
      (∃ visits, (Relay.mk ⟨0, 0, 0⟩).ComesTo "/m/a.mkv" (.torrent "hash" "magnet") "a.mkv" []
        unservable.demote w visits served) ∧
      served.1.toOption.map (·.link) = some "http://x/p" ∧
      (served.2.store.records "/m/a.mkv").map (·.state) = [.cached] := by
  intro film unservable c d b w served
  have hunservable : unservable.Fits :=
    ⟨fun n hn => Option.some_inj.1 hn ▸ by decide, show (_ : Int) < _ by decide⟩
  have hfits : c.Every Record.Fits := Catalog.every_of_single rfl hunservable
  have htimely : c.Timely := Catalog.every_of_single rfl (by decide)
  have hread : d.read = .ok (some ((Snapshot.write? c).getD [])) := rfl
  have hopened := Backend.opened_of_written hfits htimely hread
  obtain ⟨listed, -, -, -, -, hwalks⟩ :=
    opened_files_keep_their_records_and_recheck_demoted_ones hread hopened
  have hrest : w.AtRest := ⟨Limiter.atRest_ofStandard .standard, rfl⟩
  obtain ⟨visits, -, hcomes⟩ := hwalks ⟨⟨0, 0, 0⟩⟩ "/m/a.mkv" (.torrent "hash" "magnet") w hrest rfl
    (by decide) (by decide) fun _ => show Time.ofSeconds 5 < Time.ofSeconds 10 by decide
  have hdemoted : unservable.demote.IsDemoted :=
    ⟨unservable, ⟨rfl, .inl rfl⟩, unservable.reopened_demote⟩
  refine ⟨hopened, rfl, rfl, ⟨visits, hcomes [] _ [] rfl hdemoted⟩, ?_, ?_⟩
  · decide +kernel
  · decide +kernel

/-- A text lists a path twice: of the records that it lists first none is left. Where a write fails,
    the record of a provider that was asked, and has the file, stays as it was demoted. -/
theorem listed_records_are_lost_and_answers_not_stored :
    let first : Record := ⟨.premiumize, .missing, 0, none, none, none, none, .empty⟩
    let last : Record := ⟨.easynews, .missing, 0, none, none, none, none, .empty⟩
    (∃ content b, Snapshot.Lists content [("/a", [first]), ("/a", [last])] ∧
      Backend.opened ⟨"state.json", .folder, .file content, []⟩ = .ok b ∧
      b.files.entries.map (fun e => (e.1, e.2.map (·.provider))) = [("/a", [.easynews])]) ∧
    let film : CachedFile := ⟨"a.mkv", 3, none, "http://x/p", .premiumize, 0, .empty⟩
    let unservable : Record := ⟨.premiumize, .cached, 5, none, none, none, some "a.mkv", .empty⟩
    let c : Catalog := ⟨[("/a", [unservable])], by decide⟩
    let d : Disk := ⟨"state.json", .folder, .file ((Snapshot.write? c).getD []), [some .write]⟩
    ∃ b, Backend.opened d = .ok b ∧
      let w := World.start [.scripted (.holding .premiumize [film])] (.ofStandard .standard)
        ⟨b, ⟨5, 5, 5, 5⟩⟩ ⟨[], [], .common⟩ (fun _ => Time.ofSeconds 10)
      let relay : Relay := ⟨⟨0, 0, 0⟩⟩
      let key : Key := .torrent "hash" "magnet"
      ((relay.policy.resolveProvider key .premiumize w).1.toOption.map
          fun outcome => outcome.files.map (·.path)) = some ["a.mkv"] ∧
        (relay.fileLink "/a" key w).1.toOption.map (·.link) = none ∧
        ((relay.fileLink "/a" key w).2.store.records "/a").map (·.state) = [.failed .provider] := by
  intro first last
  constructor
  · have hfits : ∀ e ∈ [("/a", [first]), ("/a", [last])], ∀ r ∈ e.2, r.Fits := by
      have hfirst : first.Fits := ⟨nofun, show (_ : Int) < _ by decide⟩
      have hlast : last.Fits := ⟨nofun, show (_ : Int) < _ by decide⟩
      simp only [List.forall_mem_cons]
      exact ⟨⟨hfirst, List.forall_mem_nil _⟩, ⟨hlast, List.forall_mem_nil _⟩, List.forall_mem_nil _⟩
    have hlists := Snapshot.lists_of_entries hfits (Eq.refl (some _))
    exact ⟨_, _, hlists, (Backend.opened_eq_ok_iff rfl).2 ⟨_, hlists, rfl⟩, by decide +kernel⟩
  · intro film unservable c d
    have hunservable : unservable.Fits := ⟨nofun, show (_ : Int) < _ by decide⟩
    have hfits : c.Every Record.Fits := Catalog.every_of_single rfl hunservable
    have htimely : c.Timely := Catalog.every_of_single rfl (by decide)
    have hopened : Backend.opened d = .ok ⟨c.repair, some d⟩ :=
      Backend.opened_of_written hfits htimely rfl
    exact ⟨_, hopened, by decide +kernel, by decide +kernel, by decide +kernel⟩

end LinkRelay
