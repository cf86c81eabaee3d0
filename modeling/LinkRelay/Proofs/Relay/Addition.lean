import LinkRelay.Proofs.Relay.Refreshing
set_option autoImplicit false

/-!
# Additions of content, to the end or not

Content is added by one upsert after another: the virtual files in their order, and for each the
answers in theirs. An addition that fails before the first upsert has written nothing. One that
fails at an upsert leaves those before it, whole, and nothing of the others.
-/

namespace LinkRelay

def Failure.IsUnwritten (f : Failure) : Prop :=
  f = .parse .timeBefore1970 ∨ ∃ fault, f = .store fault

namespace Store

def onDisk (s : Store) : Option (Except StoreFault (Option Bytes)) := s.backend.disk.map Disk.read

/-- An upsert that fails leaves the records as they were, in memory and on the disk. -/
theorem upsertAt_error {s s' : Store} {path : String} {p : Provider} {outcome : FileOutcome}
    {now : Time} {f : Failure} (h : s.upsertAt path p outcome now = (.error f, s')) :
    f.IsUnwritten ∧ s'.backend.files = s.backend.files ∧ s'.onDisk = s.onDisk := by
  have hupserted := s.upserted path p outcome now
  rw [h] at hupserted
  cases hupserted with
  | refused hread hreason => exact ⟨hreason.imp_left And.right, rfl, hread⟩

end Store

namespace Catalog

def record? (c : Catalog) (path : String) (p : Provider) : Option Record :=
  (c.records path).find? fun r => r.provider = p

theorem record?_upsert (c : Catalog) (path other : String) (p q : Provider) (outcome : FileOutcome)
    (now : Time) : (c.apply (.upsert path p outcome now)).record? other q =
      if other = path ∧ q = p then some (Store.nextRecord (c.records path) p outcome now)
      else c.record? other q := by
  rw [record?, apply, records_insert]
  by_cases hpath : other = path
  · subst hpath
    rw [if_pos rfl, Store.find?_replace, nextRecord_provider]
    simp only [true_and, eq_comm (a := q), record?]
  · rw [if_neg hpath, if_neg fun h => hpath h.1, record?]

end Catalog

namespace VirtualFile

def Entry.IsOf (e : Entry) (path : String) (p : Provider) : Prop := e.path = path ∧ e.provider = p

theorem entries_order (root : String) (resolutions : List Resolution) :
    (entries root resolutions).map (fun e => (e.path, e.provider)) =
      (ofFiles root (Resolution.files resolutions)).map (·.path) ×ˢ
        resolutions.map (·.provider) := by
  change _ = List.product _ _
  simp only [entries, List.product, List.map_flatMap, List.map_map, List.flatMap_map]
  rfl

theorem nodup_entries (root : String) {resolutions : List Resolution}
    (h : (resolutions.map (·.provider)).Nodup) :
    ((entries root resolutions).map fun e => (e.path, e.provider)).Nodup := by
  rw [entries_order]
  exact (nodup_paths root _).product h

variable {c : Catalog} {moments : Nat → Time} {entries : List Entry} {path : String} {p : Provider}

theorem writes_append (moments : Nat → Time) (entries others : List Entry) :
    writes moments (entries ++ others) =
      writes moments entries ++ writes (fun n => moments (n + entries.length)) others := by
  induction entries generalizing moments with
  | nil => rfl
  | cons e rest ih =>
    rw [List.cons_append, writes, writes, ih, List.cons_append]
    rfl

def recorded (c : Catalog) (moments : Nat → Time) (entries : List Entry) : Catalog :=
  (writes moments entries).foldl Catalog.apply c

theorem recorded_append_singleton (c : Catalog) (moments : Nat → Time) (entries : List Entry)
    (e : Entry) :
    recorded c moments (entries ++ [e]) = (recorded c moments entries).apply
      (.upsert e.path e.provider e.outcome (moments entries.length)) := by
  rw [recorded, writes_append, List.foldl_append, writes, Nat.zero_add]
  rfl

theorem recorded_append (c : Catalog) (moments : Nat → Time) (entries others : List Entry) :
    recorded c moments (entries ++ others) =
      recorded (recorded c moments entries) (fun n => moments (n + entries.length)) others := by
  rw [recorded, writes_append, List.foldl_append]
  rfl

theorem record?_recorded_of_not (h : ∀ e ∈ entries, ¬ e.IsOf path p) :
    (recorded c moments entries).record? path p = c.record? path p := by
  induction entries using List.reverseRecOn with
  | nil => rfl
  | append_singleton entries e ih =>
    have hlast : ¬ e.IsOf path p := h e (List.mem_append_right _ (List.mem_singleton.2 rfl))
    rw [recorded_append_singleton, Catalog.record?_upsert,
      if_neg fun he => hlast ⟨he.1.symm, he.2.symm⟩]
    exact ih fun e he => h e (List.mem_append_left _ he)

theorem record?_recorded (c : Catalog) (moments : Nat → Time) (entries : List Entry) (path : String)
    (p : Provider) :
    (recorded c moments entries).record? path p = c.record? path p ∨
      ∃ earlier e later, entries = earlier ++ e :: later ∧ e.IsOf path p ∧
        (recorded c moments entries).record? path p =
          some (Store.nextRecord ((recorded c moments earlier).records path) p e.outcome
            (moments earlier.length)) := by
  induction entries using List.reverseRecOn with
  | nil => exact .inl rfl
  | append_singleton entries e ih =>
    rw [recorded_append_singleton, Catalog.record?_upsert]
    by_cases he : path = e.path ∧ p = e.provider
    · obtain ⟨rfl, rfl⟩ := he
      rw [if_pos ⟨rfl, rfl⟩]
      exact .inr ⟨entries, e, [], rfl, ⟨rfl, rfl⟩, rfl⟩
    · rw [if_neg he]
      refine ih.imp_right fun ⟨earlier, e', later, hentries, hof, hrecord⟩ => ?_
      exact ⟨earlier, e', later ++ [e], by rw [hentries, List.append_assoc]; rfl, hof, hrecord⟩

theorem record?_recorded_of_nodup (c : Catalog) (moments : Nat → Time) {done rest : List Entry}
    (h : ((done ++ rest).map fun e => (e.path, e.provider)).Nodup) (path : String) (p : Provider) :
    (recorded c moments done).record? path p = c.record? path p ∨
      (recorded c moments done).record? path p = (recorded c moments (done ++ rest)).record? path p := by
  by_cases hdone : ∃ e ∈ done, e.IsOf path p
  · obtain ⟨e, he, hof⟩ := hdone
    rw [List.map_append] at h
    have hrest : ∀ e' ∈ rest, ¬ e'.IsOf path p := by
      intro e' he' hof'
      have hsame : (e.path, e.provider) = (e'.path, e'.provider) :=
        Prod.ext (hof.1.trans hof'.1.symm) (hof.2.trans hof'.2.symm)
      exact (List.nodup_append.1 h).2.2 _ (List.mem_map_of_mem he) _ (List.mem_map_of_mem he') hsame
    rw [recorded_append]
    exact .inr (record?_recorded_of_not hrest).symm
  · exact .inl (record?_recorded_of_not fun e he hof => hdone ⟨e, he, hof⟩)

theorem get?_recorded_of_not (h : ∀ e ∈ entries, e.path ≠ path) :
    (recorded c moments entries).get? path = c.get? path := by
  induction entries using List.reverseRecOn with
  | nil => rfl
  | append_singleton entries e ih =>
    have hlast : e.path ≠ path := h e (List.mem_append_right _ (List.mem_singleton.2 rfl))
    rw [recorded_append_singleton, Catalog.apply, Dictionary.get?_insert, if_neg (Ne.symm hlast)]
    exact ih fun e he => h e (List.mem_append_left _ he)

end VirtualFile

namespace Relay

variable {relay : Relay} {key : Key} {root : String} {w : World}

/-- How adding content ends: there is no resolution, or no file in it, or all entries of its files
    are written, or all up to the first that cannot be. -/
inductive Adding (relay : Relay) (key : Key) (root : String) (w : World) :
    Except Halt (List VirtualFile) × World → Prop
  | unresolved {halt : Halt} {v : World} (hresolve : relay.policy.resolve key w = (.error halt, v)) :
    Adding relay key root w (.error halt, v)
  | empty {resolutions : List Resolution} {v : World}
    (hresolve : relay.policy.resolve key w = (.ok resolutions, v))
    (hfiles : Resolution.files resolutions = []) :
    Adding relay key root w (.error (.failure (.noCachedFiles key.display)), v)
  | whole {resolutions : List Resolution} {v w' : World}
    (hresolve : relay.policy.resolve key w = (.ok resolutions, v))
    (hfiles : Resolution.files resolutions ≠ [])
    (hdone : v.store.afterAll? (VirtualFile.writes v.calendar (VirtualFile.entries root resolutions)) =
      some w'.store) :
    Adding relay key root w (.ok (VirtualFile.ofFiles root (Resolution.files resolutions)), w')
  | stopped {resolutions : List Resolution} {v w' : World} {done rest : List VirtualFile.Entry}
    {e : VirtualFile.Entry} {s : Store} {f : Failure}
    (hresolve : relay.policy.resolve key w = (.ok resolutions, v))
    (hfiles : Resolution.files resolutions ≠ [])
    (hentries : VirtualFile.entries root resolutions = done ++ e :: rest)
    (hdone : v.store.afterAll? (VirtualFile.writes v.calendar done) = some s)
    (hrefused : s.upsertAt e.path e.provider e.outcome (v.calendar done.length) =
      (.error f, w'.store)) :
    Adding relay key root w (.error (.failure f), w')

theorem adding (relay : Relay) (key : Key) (root : String) (w : World) :
    Adding relay key root w (relay.addContent key root w) := by
  unfold addContent
  rcases hresolve : relay.policy.resolve key w with ⟨halt | resolutions, v⟩
  · rw [Session.bind_of_error hresolve]
    exact .unresolved hresolve
  · rw [Session.bind_of_ok hresolve]
    dsimp only
    split
    next hempty =>
      exact .empty hresolve (List.isEmpty_iff.1 hempty)
    next hsome =>
      have hfiles : Resolution.files resolutions ≠ [] := mt List.isEmpty_iff.2 hsome
      have hrecording := VirtualFile.recording (VirtualFile.entries root resolutions) v
      change Adding relay key root w ((do
        VirtualFile.recordAll (VirtualFile.entries root resolutions)
        return VirtualFile.ofFiles root (Resolution.files resolutions) : Session _) v)
      rcases hrecord : VirtualFile.recordAll (VirtualFile.entries root resolutions) v with
        ⟨halt | _, w'⟩
      · rw [Session.bind_of_error hrecord]
        rw [hrecord] at hrecording
        cases hrecording with
        | stopped hentries hdone hrefused => exact .stopped hresolve hfiles hentries hdone hrefused
      · rw [Session.bind_of_ok hrecord]
        rw [hrecord] at hrecording
        cases hrecording with
        | whole hdone => exact .whole hresolve hfiles hdone

end Relay

open VirtualFile

/-- What a store holds that took some entries from a moment on, and nothing else: each record is
    the old one or one that an entry made. -/
structure Store.Took (before : Store) (moments : Nat → Time) (done : List VirtualFile.Entry)
    (after : Store) : Prop where
  files : after.backend.files = recorded before.backend.files moments done
  onDisk : ∃ s, before.afterAll? (writes moments done) = some s ∧ after.onDisk = s.onDisk
  whole (path : String) (p : Provider) : after.record? path p = before.record? path p ∨
    ∃ earlier e later, done = earlier ++ e :: later ∧ e.IsOf path p ∧ after.record? path p =
      some (nextRecord ((recorded before.backend.files moments earlier).records path) p e.outcome
        (moments earlier.length))
  untouched {path : String} (h : ∀ e ∈ done, e.path ≠ path) :
    after.backend.files.get? path = before.backend.files.get? path

theorem Store.took_of_refused {before s after : Store} {moments : Nat → Time} {moment : Time}
    {done : List VirtualFile.Entry} {e : VirtualFile.Entry} {f : Failure}
    (hdone : before.afterAll? (writes moments done) = some s)
    (hrefused : s.upsertAt e.path e.provider e.outcome moment = (.error f, after)) :
    before.Took moments done after := by
  obtain ⟨-, hfiles, hdisk⟩ := upsertAt_error hrefused
  have hrecorded : after.backend.files = recorded before.backend.files moments done :=
    hfiles.trans (afterAll?_files hdone)
  refine ⟨hrecorded, ⟨s, hdone, hdisk⟩, fun path p => ?_, fun h => ?_⟩
  · have hwhole := record?_recorded before.backend.files moments done path p
    rwa [← hrecorded] at hwhole
  · rw [hrecorded]
    exact get?_recorded_of_not h

theorem Store.Took.old_or_new {before after : Store} {moments : Nat → Time}
    {done rest : List VirtualFile.Entry} (h : before.Took moments done after)
    (hplanned : ((done ++ rest).map fun e => (e.path, e.provider)).Nodup) (path : String)
    (p : Provider) : after.record? path p = before.record? path p ∨ after.record? path p =
      (recorded before.backend.files moments (done ++ rest)).record? path p := by
  have hrecord := record?_recorded_of_nodup before.backend.files moments hplanned path p
  rwa [← h.files] at hrecord

/-- An addition that ends for want of files, or without a resolution, leaves the store alone. Any
    other makes its upserts in the order of the virtual files, and for each in that of the answers,
    either all of them or those before the first that cannot be written. -/
theorem additions_make_all_or_first_upserts (relay : Relay) (key : Key) (root : String) (w : World) :
    let ended := relay.addContent key root w
    (∀ halt, ended.1 = .error halt → (∃ content, halt = .failure (.noCachedFiles content)) ∨
        (relay.policy.resolve key w).1 = .error halt → ended.2.store = w.store) ∧
      ∀ resolutions v, relay.policy.resolve key w = (.ok resolutions, v) →
        Resolution.files resolutions ≠ [] →
        let created := ofFiles root (Resolution.files resolutions)
        let planned := entries root resolutions
        planned.map (fun e => (e.path, e.provider)) =
            created.map (·.path) ×ˢ resolutions.map (·.provider) ∧
          ((ended.1 = .ok created ∧
              w.store.afterAll? (writes v.calendar planned) = some ended.2.store) ∨
            ∃ done e rest s f, planned = done ++ e :: rest ∧
              w.store.afterAll? (writes v.calendar done) = some s ∧
              (s.upsertAt e.path e.provider e.outcome (v.calendar done.length)).1 = .error f ∧
              ended.1 = .error (.failure f) ∧ w.store.Took v.calendar done ended.2.store ∧
              ((resolutions.map (·.provider)).Nodup → ∀ path p,
                ended.2.store.record? path p = w.store.record? path p ∨
                  ended.2.store.record? path p =
                    (recorded w.store.backend.files v.calendar planned).record? path p)) := by
  intro ended
  have hadding := relay.adding key root w
  have hstore := Session.Keeps.resolve (J := fun s => s = w.store) relay.policy key w rfl
  change relay.Adding key root w ended at hadding
  generalize ended = ended at hadding
  cases hadding with
  | unresolved hresolve =>
    rw [hresolve] at hstore ⊢
    exact ⟨fun _ _ _ => hstore, nofun⟩
  | empty hresolve hfiles =>
    rw [hresolve] at hstore ⊢
    refine ⟨fun _ _ _ => hstore, ?_⟩
    rintro _ _ ⟨⟩ hsome
    exact absurd hfiles hsome
  | whole hresolve hfiles hdone =>
    rw [hresolve] at hstore ⊢
    dsimp only at hstore
    refine ⟨nofun, ?_⟩
    rintro _ _ ⟨⟩ -
    exact ⟨entries_order .., .inl ⟨rfl, hstore ▸ hdone⟩⟩
  | stopped hresolve hfiles hentries hdone hrefused =>
    rw [hresolve] at hstore ⊢
    dsimp only at hstore
    refine ⟨?_, ?_⟩
    · rintro _ ⟨⟩ (⟨content, hcontent⟩ | hunresolved)
      · cases hcontent
        obtain ⟨hunwritten | ⟨fault, hunwritten⟩, -⟩ := Store.upsertAt_error hrefused <;>
          cases hunwritten
      · cases hunresolved
    · rintro resolutions v ⟨⟩ -
      rw [hstore] at hdone
      have htook := Store.took_of_refused hdone hrefused
      refine ⟨entries_order .., .inr ⟨_, _, _, _, _, hentries, hdone, ?_, rfl, htook, ?_⟩⟩
      · rw [hrefused]
      · intro hnodup path p
        have hplanned := nodup_entries root hnodup
        rw [hentries] at hplanned ⊢
        exact htook.old_or_new hplanned path p

/-- Of two providers' answers on a film that was known, the first is recorded. The write of the second
    one is not synced, and what was known of its provider stays. -/
theorem additions_make_all_or_first_upserts_of_unsynced :
    let film (link : String) (p : Provider) : CachedFile := ⟨"a.mkv", 3, none, link, p, 0, .empty⟩
    let known : Record :=
      ⟨.easynews, .cached, 5, some "http://x/old", some 3, none, some "a.mkv", .empty⟩
    let c : Catalog := ⟨[("/m/a.mkv", [known])], by decide⟩
    let d : Disk :=
      ⟨"state.json", .folder, .file ((Snapshot.write? c).getD []), [none, some .sync]⟩
    let w := World.start
      [.having .premiumize [film "http://x/p" .premiumize],
        .having .easynews [film "http://x/e" .easynews]]
      (.ofStandard .standard) ⟨⟨c, some d⟩, ⟨5, 5, 5, 5⟩⟩ ⟨[], [], .common⟩
      (fun _ => Time.ofSeconds 10)
    let relay : Relay := ⟨⟨0, 0, 0⟩⟩
    let key : Key := .torrent "hash" "magnet"
    ∃ f w', relay.addContent key "/m" w = (.error (.failure f), w') ∧
      (w'.store.records "/m/a.mkv").map (fun r => (r.provider, r.link)) =
        [(.easynews, some "http://x/old"), (.premiumize, some "http://x/p")] ∧
      ∃ resolutions v done e rest, relay.policy.resolve key w = (.ok resolutions, v) ∧
        Resolution.files resolutions ≠ [] ∧ entries "/m" resolutions = done ++ e :: rest ∧
        w.store.Took v.calendar done w'.store := by
  intro film known c d w relay key
  have hlisted : ((relay.policy.resolve key w).1.toOption.map
      fun resolutions => (Resolution.files resolutions).length) = some 2 := by decide +kernel
  have hrecords : ((relay.addContent key "/m" w).2.store.records "/m/a.mkv").map
      (fun r => (r.provider, r.link)) =
        [(.easynews, some "http://x/old"), (.premiumize, some "http://x/p")] := by decide +kernel
  have hfailed : (relay.addContent key "/m" w).1.toOption = none := by decide +kernel
  obtain ⟨-, hmade⟩ := additions_make_all_or_first_upserts relay key "/m" w
  generalize relay.addContent key "/m" w = ended at hmade hrecords hfailed ⊢
  rcases hresolve : relay.policy.resolve key w with ⟨halt | resolutions, v⟩
  · rw [hresolve] at hlisted
    cases hlisted
  · rw [hresolve] at hlisted
    have hfiles : Resolution.files resolutions ≠ [] := by
      intro hnone
      have hlength : (Resolution.files resolutions).length = 2 := Option.some.inj hlisted
      rw [hnone] at hlength
      cases hlength
    obtain ⟨-, ⟨hok, -⟩ | ⟨done, e, rest, s, f, hentries, -, -, herror, htook, -⟩⟩ :=
      hmade resolutions v hresolve hfiles
    · rw [hok] at hfailed
      cases hfailed
    · exact ⟨f, ended.2, Prod.ext herror rfl, hrecords, resolutions, v, done, e, rest, rfl, hfiles,
        hentries, htook⟩

end LinkRelay
