import LinkRelay.Proofs.Relay.FileLink
import LinkRelay.Proofs.Relay.Listings
set_option autoImplicit false

/-!
# Which remote path is looked for

A walk looks for one remote path in every answer, whichever record it has come to: the first that
any of the records carries. A provider that lists its file elsewhere is not found to have it, even
if its own record says where.
-/

namespace LinkRelay

namespace Outcome

theorem listed_of_forFile {o : Outcome} {path : String} {file : CachedFile}
    (h : (o.forFile path).file? = some file) : file ∈ o.files ∧ file.path = path := by
  rw [file?_forFile] at h
  have hpath := List.find?_some h
  exact ⟨List.mem_of_find?_eq_some h, beq_iff_eq.1 hpath⟩

theorem unlisted_of_forFile {o : Outcome} {path : String} (h : (o.forFile path).file? = none) :
    ∀ f ∈ o.files, f.path ≠ path := by
  rw [file?_forFile, List.find?_eq_none] at h
  exact fun f hf heq => h f hf (beq_iff_eq.2 heq)

end Outcome

/-- The remote path that a walk over some records looks for. -/
def remotePathFor (path : String) (records : List Record) : String :=
  (records.findSome? (·.remotePath)).getD (VirtualFile.fileName path)

theorem remotePathFor_of_agreeing {path own : String} {records : List Record} {r : Record}
    (hr : r ∈ records) (hown : r.remotePath = some own)
    (hagree : ∀ r ∈ records, ∀ other, r.remotePath = some other → other = own) :
    remotePathFor path records = own := by
  unfold remotePathFor
  cases hfirst : records.findSome? (·.remotePath) with
  | none =>
    have hnone : r.remotePath = none := List.findSome?_eq_none_iff.1 hfirst r hr
    rw [hown] at hnone
    cases hnone
  | some first =>
    obtain ⟨other, hother, hcarries⟩ := List.exists_of_findSome?_eq_some hfirst
    exact hagree other hother first hcarries

namespace Relay

variable {relay : Relay} {path : String} {key : Key} {remote : String}
variable {w mid after : World} {r : Record} {verdict : Verdict} {v : Visit} {visits : List Visit}
variable {outcome : Outcome} {file : CachedFile} {result : Except Halt CachedFile × World}

/-- On a walk over some visits, the record of one was stale when the walk came to it, and its
    provider answered, and left a world. -/
inductive Hears (relay : Relay) (key : Key) : World → List Visit → Visit → Outcome → World → Prop
  | here {w mid : World} {v : Visit} {rest : List Visit} {outcome : Outcome}
    (hstale : v.record.IsStale w.store.policy w.wall)
    (hask : relay.policy.resolveProvider key v.record.provider w.readWall.2 = (.ok outcome, mid)) :
    Hears relay key w (v :: rest) v outcome mid
  | later {w mid : World} {first v : Visit} {rest : List Visit} {outcome : Outcome}
    (h : Hears relay key first.after rest v outcome mid) :
    Hears relay key w (first :: rest) v outcome mid

theorem Hears.mem (h : relay.Hears key w visits v outcome mid) : v ∈ visits := by
  induction h with
  | here => exact List.mem_cons_self
  | later _ ih => exact List.mem_cons_of_mem _ ih

inductive Judged (path remote : String) (r : Record) (outcome : Outcome) (mid : World) :
    Verdict → Prop
  | refused {f : Failure} (hupsert : (Session.upsert path r.provider (outcome.forFile remote) mid).1 =
      .error (.failure f)) : Judged path remote r outcome mid (.failed f)
  | without {updated : Record} (hfiles : ∀ f ∈ outcome.files, f.path ≠ remote) :
    Judged path remote r outcome mid (.without updated)
  | found {updated : Record} {file : CachedFile} (hfiles : ∃ f ∈ outcome.files, f.path = remote)
    (hpath : file.path = remote) (hprovider : file.provider = r.provider) :
    Judged path remote r outcome mid (.found updated file)

theorem Visited.judged (h : relay.Visited path key remote r w verdict after)
    (hstale : r.IsStale w.store.policy w.wall)
    (hask : relay.policy.resolveProvider key r.provider w.readWall.2 = (.ok outcome, mid)) :
    Judged path remote r outcome mid verdict := by
  cases h with
  | fresh hfresh => exact absurd hstale hfresh
  | without _ hasked _ hfile =>
    cases hask.symm.trans hasked
    exact .without (Outcome.unlisted_of_forFile hfile)
  | found _ hasked _ hfile =>
    cases hask.symm.trans hasked
    obtain ⟨hlisted, hpath⟩ := Outcome.listed_of_forFile hfile
    exact .found ⟨_, hlisted, hpath⟩ hpath rfl
  | fatal _ hasked => cases hask.symm.trans hasked
  | unwritten _ hasked hupsert =>
    cases hask.symm.trans hasked
    exact .refused (congrArg Prod.fst hupsert)

theorem Visited.provider_of_found {updated : Record}
    (h : relay.Visited path key remote r w (.found updated file) after) :
    file.provider = r.provider := by
  cases h with
  | found => rfl

/-- A walk comes to a file of the visited record's provider at a remote path, unless the provider's
    answer cannot be recorded. -/
def Recovers (path remote : String) (v : Visit) (outcome : Outcome) (mid : World)
    (answer : Except Halt CachedFile) : Prop :=
  (∃ file, answer = .ok file ∧ file.path = remote ∧ file.provider = v.record.provider) ∨
    ∃ f, (Session.upsert path v.record.provider (outcome.forFile remote) mid).1 =
        .error (.failure f) ∧ answer = .error (.failure f)

theorem Visits.visited (h : relay.Visits path key remote w visits after) (hv : v ∈ visits) :
    ∃ before, relay.Visited path key remote v.record before v.verdict v.after := by
  induction visits generalizing w with
  | nil => cases hv
  | cons first rest ih =>
    rcases List.mem_cons.1 hv with rfl | hv
    · exact ⟨w, h.1⟩
    · exact ih h.2 hv

theorem Visits.heard_of_found {updated : Record}
    (h : relay.Visits path key remote w visits after) (hv : v ∈ visits)
    (hfound : v.verdict = .found updated file) :
    ∃ outcome mid, relay.Hears key w visits v outcome mid := by
  induction visits generalizing w with
  | nil => cases hv
  | cons first rest ih =>
    obtain ⟨hvisited, hrest⟩ := h
    rcases List.mem_cons.1 hv with rfl | hv
    · rw [hfound] at hvisited
      cases hvisited with
      | found hstale hask => exact ⟨_, _, .here hstale hask⟩
    · obtain ⟨outcome, mid, hheard⟩ := ih hrest hv
      exact ⟨outcome, mid, .later hheard⟩

theorem Visits.judged (h : relay.Visits path key remote w visits after)
    (hheard : relay.Hears key w visits v outcome mid) :
    Judged path remote v.record outcome mid v.verdict := by
  induction hheard with
  | here hstale hask => exact h.1.judged hstale hask
  | later _ ih => exact ih h.2

namespace Walk

variable {before rest : List Record}

theorem last_of_stop (h : relay.Walk path key remote before rest w visits result) (hv : v ∈ visits)
    (hstop : v.verdict.goesOn = false) : visits.getLast? = some v := by
  have hne : visits ≠ [] := List.ne_nil_of_mem hv
  rw [← List.dropLast_append_getLast hne, List.mem_append, List.mem_singleton] at hv
  rw [List.getLast?_eq_some_getLast hne]
  refine congrArg some (hv.resolve_left fun hearlier => ?_).symm
  rw [h.onward v hearlier] at hstop
  cases hstop

theorem ok_of_found (h : relay.Walk path key remote before rest w visits result) (hv : v ∈ visits)
    {updated : Record} (hfound : v.verdict = .found updated file) : result.1 = .ok file := by
  have hlast := h.last_of_stop hv (by rw [hfound]; rfl)
  rw [h.answer, answerAfter, hlast, Option.map_some, hfound]

theorem error_of_failed (h : relay.Walk path key remote before rest w visits result)
    (hv : v ∈ visits) {f : Failure} (hfailed : v.verdict = .failed f) :
    result.1 = .error (.failure f) := by
  have hlast := h.last_of_stop hv (by rw [hfailed]; rfl)
  rw [h.answer, answerAfter, hlast, Option.map_some, hfailed]

theorem found_of_ok (h : relay.Walk path key remote before rest w visits result)
    (hok : result.1 = .ok file) : ∃ v ∈ visits, ∃ updated, v.verdict = .found updated file := by
  rw [h.answer, answerAfter] at hok
  cases hlast : visits.getLast? with
  | none => rw [hlast] at hok; cases hok
  | some v =>
    rw [hlast, Option.map_some] at hok
    refine ⟨v, List.mem_of_getLast? hlast, ?_⟩
    cases hverdict : v.verdict with
    | fresh | without | failed => rw [hverdict] at hok; cases hok
    | found updated found => rw [hverdict] at hok; cases hok; exact ⟨updated, rfl⟩

theorem heard_of_ok (h : relay.Walk path key remote before rest w visits result)
    (hok : result.1 = .ok file) : file.path = remote ∧ ∃ v outcome mid,
      relay.Hears key w visits v outcome mid ∧ file.provider = v.record.provider ∧
        ∃ f ∈ outcome.files, f.path = remote := by
  obtain ⟨v, hv, updated, hfound⟩ := h.found_of_ok hok
  obtain ⟨outcome, mid, hheard⟩ := h.steps.heard_of_found hv hfound
  have hjudged := h.steps.judged hheard
  rw [hfound] at hjudged
  cases hjudged with
  | found hlisted hpath hprovider => exact ⟨hpath, v, outcome, mid, hheard, hprovider, hlisted⟩

theorem recovers (h : relay.Walk path key remote before rest w visits result)
    (hheard : relay.Hears key w visits v outcome mid)
    (hlisted : ∃ f ∈ outcome.files, f.path = remote) :
    Recovers path remote v outcome mid result.1 := by
  have hjudged := h.steps.judged hheard
  generalize hverdict : v.verdict = verdict at hjudged
  cases hjudged with
  | refused hupsert => exact .inr ⟨_, hupsert, h.error_of_failed hheard.mem hverdict⟩
  | without hfiles =>
    obtain ⟨f, hf, hpath⟩ := hlisted
    exact absurd hpath (hfiles f hf)
  | found _ hpath hprovider =>
    exact .inl ⟨_, h.ok_of_found hheard.mem hverdict, hpath, hprovider⟩

theorem provider_ne_of_unlisted (h : relay.Walk path key remote before rest w visits result)
    (hnodup : (rest.map (·.provider)).Nodup) (hheard : relay.Hears key w visits v outcome mid)
    (hfiles : ∀ f ∈ outcome.files, f.path ≠ remote) (hok : result.1 = .ok file) :
    file.provider ≠ v.record.provider := by
  intro hprovider
  have hproviders : (visits.map fun v => v.record.provider).Nodup := by
    have hmap := (h.order.sublist.map (·.provider)).nodup hnodup
    rwa [List.map_map] at hmap
  obtain ⟨v', hv', updated, hfound⟩ := h.found_of_ok hok
  obtain ⟨earlier, hvisited⟩ := h.steps.visited hv'
  rw [hfound] at hvisited
  obtain rfl : v' = v := List.inj_on_of_nodup_map hproviders hv' hheard.mem
    (hvisited.provider_of_found.symm.trans hprovider)
  have hjudged := h.steps.judged hheard
  rw [hfound] at hjudged
  cases hjudged with
  | found hlisted =>
    obtain ⟨f, hf, hpath⟩ := hlisted
    exact hfiles f hf hpath

end Walk

theorem fileLink_of_none (relay : Relay) (key : Key)
    (hnone : (w.store.records path).findSome? Record.toFile? = none) :
    relay.fileLink path key w =
      relay.revalidate path key (remotePathFor path (w.store.records path))
        (w.store.records path) w := by
  have hlist : Session.records path w = (.ok (w.store.records path), w) := rfl
  rw [fileLink, Session.bind_of_ok hlist, hnone]
  rfl

end Relay

/-- Where no record has a file, the walk over the records looks for the first remote path that any
    of them carries, or for the name of the virtual file, and finds no file elsewhere. A provider
    that is asked and lists a file there gives the answer, unless it cannot be recorded; the file
    of a provider that lists none there is not found. So a record's own remote path is looked for
    where all that carry one agree. -/
theorem file_link_looks_for_first_remote_path (relay : Relay) (path : String) (key : Key)
    {w : World} (h : w.AtRest) (hnodup : ((w.store.records path).map (·.provider)).Nodup)
    (hnone : (w.store.records path).findSome? Record.toFile? = none) :
    let records := w.store.records path
    let remote := remotePathFor path records
    let served := relay.fileLink path key w
    ∃ visits, relay.Walk path key remote [] records w visits served ∧
      (∀ file, served.1 = .ok file → file.path = remote ∧ ∃ v outcome mid,
        relay.Hears key w visits v outcome mid ∧ file.provider = v.record.provider ∧
          ∃ f ∈ outcome.files, f.path = remote) ∧
      ∀ v outcome mid, relay.Hears key w visits v outcome mid →
        ((∃ f ∈ outcome.files, f.path = remote) →
          Relay.Recovers path remote v outcome mid served.1) ∧
        ((∀ f ∈ outcome.files, f.path ≠ remote) →
          ∀ file, served.1 = .ok file → file.provider ≠ v.record.provider) ∧
        ∀ own, v.record.remotePath = some own →
          (∀ r ∈ records, ∀ other, r.remotePath = some other → other = own) →
          (∃ f ∈ outcome.files, f.path = own) →
            Relay.Recovers path own v outcome mid served.1 := by
  intro records remote served
  obtain ⟨visits, hwalk⟩ := Relay.revalidate_walks relay key remote h
    (List.nil_append records).symm hnodup
  rw [← relay.fileLink_of_none key hnone] at hwalk
  refine ⟨visits, hwalk, fun file hok => hwalk.heard_of_ok hok, fun v outcome mid hheard => ?_⟩
  refine ⟨hwalk.recovers hheard, fun hfiles file hok => ?_, fun own hown hagree hlisted => ?_⟩
  · exact hwalk.provider_ne_of_unlisted hnodup hheard hfiles hok
  · have hrecord : v.record ∈ records :=
      hwalk.order.subset (List.mem_map_of_mem hheard.mem)
    have hremote : remote = own := remotePathFor_of_agreeing hrecord hown hagree
    rw [← hremote] at hlisted ⊢
    exact hwalk.recovers hheard hlisted

def Script.holding (p : Provider) (files : List CachedFile) : Script :=
  { provider := p, kind := .torrent, answers := [], fallback := .ok true, listings := [],
    files := .ok files, link := .ok none, delayMs := 0, asked := (0, 0, 0) }

/-- Two providers that failed, of whom one has the file now, at the path in both records. -/
theorem file_link_looks_for_first_remote_path_of_two :
    let film : CachedFile := ⟨"a.mkv", 3, none, "http://x/e", .easynews, 0, .empty⟩
    let known (p : Provider) : Record :=
      ⟨p, .failed .provider, 0, none, none, none, some "a.mkv", .empty⟩
    let records := [known .premiumize, known .easynews]
    let store : Store := ⟨⟨Dictionary.empty.insert "/m/a.mkv" records, none⟩, ⟨5, 5, 5, 5⟩⟩
    let w := World.start [.scripted (.holding .premiumize []), .scripted (.holding .easynews [film])]
      (.ofStandard .standard) store ⟨[], [], .common⟩ (fun _ => Time.ofSeconds 10)
    let relay : Relay := ⟨⟨0, 0, 0⟩⟩
    let key : Key := .torrent "hash" "magnet"
    w.AtRest ∧ ((w.store.records "/m/a.mkv").map (·.provider)).Nodup ∧
      (w.store.records "/m/a.mkv").findSome? Record.toFile? = none ∧
      (relay.fileLink "/m/a.mkv" key w).1.toOption.map (·.provider) = some .easynews ∧
      ∀ file, (relay.fileLink "/m/a.mkv" key w).1 = .ok file → file.path = "a.mkv" ∧
        ∃ visits v outcome mid, relay.Hears key w visits v outcome mid ∧
          file.provider = v.record.provider := by
  intro film known records store w relay key
  have hrest : w.AtRest := ⟨Limiter.atRest_ofStandard .standard, rfl⟩
  have hnodup : ((w.store.records "/m/a.mkv").map (·.provider)).Nodup := by decide
  have hnone : (w.store.records "/m/a.mkv").findSome? Record.toFile? = none := rfl
  obtain ⟨visits, -, hfound, -⟩ :=
    file_link_looks_for_first_remote_path relay "/m/a.mkv" key hrest hnodup hnone
  refine ⟨hrest, hnodup, hnone, by decide, fun file hok => ?_⟩
  obtain ⟨hpath, v, outcome, mid, hheard, hprovider, -⟩ := hfound file hok
  exact ⟨hpath, visits, v, outcome, mid, hheard, hprovider⟩

/-- Two providers that failed, of whom one has the file now, at the path in its own record. The
    walk looks for the path in the other one's, and finds no file. -/
theorem file_link_overlooks_own_remote_path :
    let film : CachedFile := ⟨"/a.mkv", 3, none, "http://x/e", .easynews, 0, .empty⟩
    let known (p : Provider) (remotePath : String) : Record :=
      ⟨p, .failed .provider, 0, none, none, none, some remotePath, .empty⟩
    let records := [known .premiumize "a.mkv", known .easynews "/a.mkv"]
    let store : Store := ⟨⟨Dictionary.empty.insert "/m/a.mkv" records, none⟩, ⟨5, 5, 5, 5⟩⟩
    let w := World.start [.scripted (.holding .premiumize []), .scripted (.holding .easynews [film])]
      (.ofStandard .standard) store ⟨[], [], .common⟩ (fun _ => Time.ofSeconds 10)
    let relay : Relay := ⟨⟨0, 0, 0⟩⟩
    let key : Key := .torrent "hash" "magnet"
    let answer := relay.policy.resolveProvider key .easynews w
    let served := relay.fileLink "/m/a.mkv" key w
    (answer.1.toOption.map fun outcome => outcome.files.map (·.path)) = some ["/a.mkv"] ∧
      served.1.toOption.map (·.path) = none ∧
      (served.2.store.records "/m/a.mkv").map (fun r => (r.provider, r.state, r.remotePath)) =
        [(.premiumize, .missing, some "a.mkv"), (.easynews, .missing, some "/a.mkv")] := by
  decide +kernel

end LinkRelay
