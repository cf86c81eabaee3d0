import LinkRelay.Proofs.Client.OwnFiles
import LinkRelay.Relay
set_option autoImplicit false

/-!
# Content that is added

Adding content writes the answer of every provider on every virtual file, one write after another.
A path that was unknown has one record per provider then, and the first that has a file has the
file that the virtual file was made of.
-/

namespace LinkRelay

open Observation

namespace Session

variable {α β : Type} {w w' : World}

theorem ok_of_bind {s : Session α} {f : α → Session β} {b : β}
    (h : (s >>= f) w = (.ok b, w')) : ∃ a v, s w = (.ok a, v) ∧ f a v = (.ok b, w') := by
  rcases hs : s w with ⟨halt | a, v⟩
  · rw [bind_of_error hs] at h
    cases h
  · rw [bind_of_ok hs] at h
    exact ⟨a, v, rfl, h⟩

theorem upsert_eq (path : String) (provider : Provider) (outcome : FileOutcome) (w : World) :
    upsert path provider outcome w =
      ((w.store.upsertAt path provider outcome w.wall).1.mapError .failure,
        { w.readWall.2 with store := (w.store.upsertAt path provider outcome w.wall).2 }) :=
  rfl

end Session

namespace VirtualFile

def writes : (Nat → Time) → List Entry → List Write
  | _, [] => []
  | moments, e :: rest =>
    .upsert e.path e.provider e.outcome (moments 0) :: writes (fun n => moments (n + 1)) rest

def recordAll (entries : List Entry) : Session PUnit :=
  forIn entries PUnit.unit fun e _ => do
    let _ ← Session.upsert e.path e.provider e.outcome
    pure (.yield PUnit.unit)

/-- How recording ends: all entries are written, or all up to the first that cannot be. -/
inductive Recording (entries : List Entry) (w : World) : Except Halt PUnit × World → Prop
  | whole {w' : World} (hdone : w.store.afterAll? (writes w.calendar entries) = some w'.store) :
    Recording entries w (.ok PUnit.unit, w')
  | stopped {w' : World} {done rest : List Entry} {e : Entry} {s : Store} {f : Failure}
    (hentries : entries = done ++ e :: rest)
    (hdone : w.store.afterAll? (writes w.calendar done) = some s)
    (hrefused : s.upsertAt e.path e.provider e.outcome (w.calendar done.length) =
      (.error f, w'.store)) :
    Recording entries w (.error (.failure f), w')

theorem recording (entries : List Entry) (w : World) : Recording entries w (recordAll entries w) := by
  induction entries generalizing w with
  | nil => exact .whole rfl
  | cons e rest ih =>
    have hupsert := Session.upsert_eq e.path e.provider e.outcome w
    rw [recordAll, List.forIn_cons]
    rcases hsaved : w.store.upsertAt e.path e.provider e.outcome w.wall with ⟨f | record, s⟩
    · rw [hsaved] at hupsert
      rw [Session.bind_of_error (Session.bind_of_error hupsert _)]
      exact .stopped (show e :: rest = [] ++ e :: rest from rfl) rfl hsaved
    · rw [hsaved] at hupsert
      rw [Session.bind_of_ok (Session.bind_of_ok hupsert _)]
      let v : World := { w.readWall.2 with store := s }
      have hafter : w.store.after? (.upsert e.path e.provider e.outcome w.wall) = some v.store := by
        rw [Store.after?, hsaved]
      have hrest (l : List Write) : w.store.afterAll?
          (.upsert e.path e.provider e.outcome w.wall :: l) = v.store.afterAll? l := by
        rw [Store.afterAll?, List.foldlM_cons, hafter]
        rfl
      have hrun := ih v
      change Recording (e :: rest) w (recordAll rest v)
      generalize recordAll rest v = result at hrun
      cases hrun with
      | whole hdone => exact .whole ((hrest _).trans hdone)
      | @stopped w' done later e' s' f hentries hdone hrefused =>
        exact .stopped (show e :: rest = (e :: done) ++ e' :: later from congrArg _ hentries)
          ((hrest _).trans hdone) hrefused

theorem afterAll?_of_record {entries : List Entry} {w w' : World}
    (h : recordAll entries w = (.ok PUnit.unit, w')) :
    w.store.afterAll? (writes w.calendar entries) = some w'.store := by
  have hrecording := recording entries w
  rw [h] at hrecording
  cases hrecording with
  | whole hdone => exact hdone

def observe (records : List Record) (o : Observation) : List Record :=
  Store.replace (Store.nextRecord records o.provider o.outcome o.moment) records

theorem records_foldl_apply (c : Catalog) {history : List Write} (path : String)
    (h : ∀ w ∈ history, w.deletes path = false) :
    (history.foldl Catalog.apply c).records path =
      (history.filterMap (·.observation? path)).foldl observe (c.records path) := by
  induction history generalizing c with
  | nil => rfl
  | cons w rest ih =>
    rw [List.foldl_cons, ih _ fun w hw => h w (List.mem_cons_of_mem _ hw)]
    have hw := h w List.mem_cons_self
    cases w with
    | upsert p provider outcome now =>
      rw [Catalog.apply, Catalog.records_insert]
      by_cases hp : p = path
      · subst hp
        simp [Write.observation?, observe]
      · simp [Write.observation?, hp, Ne.symm hp]
    | delete p =>
      have hp : p ≠ path := by simpa [Write.deletes] using hw
      rw [Catalog.apply, Catalog.records_erase, if_neg (Ne.symm hp)]
      simp [Write.observation?]

theorem observations_writes (path : String) (moments : Nat → Time) (entries : List Entry) :
    List.Forall₂ (fun e o => o.provider = e.provider ∧ o.outcome = e.outcome)
      (entries.filter (·.path == path))
      ((writes moments entries).filterMap (·.observation? path)) := by
  induction entries generalizing moments with
  | nil => exact .nil
  | cons e rest ih =>
    rw [writes]
    by_cases hpath : e.path = path
    · rw [List.filter_cons_of_pos (by simpa using hpath),
        List.filterMap_cons_some (by rw [Write.observation?, if_pos hpath])]
      exact .cons ⟨rfl, rfl⟩ (ih _)
    · rw [List.filter_cons_of_neg (by simpa using hpath),
        List.filterMap_cons_none (by rw [Write.observation?, if_neg hpath])]
      exact ih _

theorem deletes_writes (path : String) (moments : Nat → Time) (entries : List Entry) :
    ∀ w ∈ writes moments entries, w.deletes path = false := by
  induction entries generalizing moments with
  | nil => exact nofun
  | cons e rest ih =>
    intro w hw
    rcases List.mem_cons.1 hw with rfl | hw
    · rfl
    · exact ih _ w hw

theorem flatMap_of_nodup {α β γ : Type} {f : α → β} {g : α → List γ} {l : List α} {a : α}
    (hnodup : (l.map f).Nodup) (ha : a ∈ l) (hg : ∀ b, f b ≠ f a → g b = []) :
    l.flatMap g = g a := by
  obtain ⟨before, after, rfl⟩ := List.append_of_mem ha
  rw [List.map_append, List.map_cons] at hnodup
  obtain ⟨-, hafter, hbefore⟩ := List.nodup_append.1 hnodup
  have hnone {others : List α} (h : ∀ b ∈ others, f b ≠ f a) : others.flatMap g = [] :=
    List.flatMap_eq_nil_iff.2 fun b hb => hg b (h b hb)
  rw [List.flatMap_append, List.flatMap_cons, hnone, hnone, List.nil_append, List.append_nil]
  · intro b hb heq
    exact (List.nodup_cons.1 hafter).1 (List.mem_map.2 ⟨b, hb, heq⟩)
  · exact fun b hb => hbefore _ (List.mem_map_of_mem hb) _ List.mem_cons_self

theorem filter_entries {root : String} {resolutions : List Resolution} {v : VirtualFile}
    (hv : v ∈ ofFiles root (Resolution.files resolutions)) :
    (entries root resolutions).filter (·.path == v.path) = resolutions.map fun r =>
      ⟨v.path, r.provider,
        r.outcome.forFile (remotePath root (Resolution.files resolutions) v.path)⟩ := by
  unfold entries
  dsimp only
  rw [List.filter_flatMap, flatMap_of_nodup (nodup_paths root _) hv]
  · refine List.filter_eq_self.2 fun e he => ?_
    obtain ⟨r, -, rfl⟩ := List.mem_map.1 he
    exact beq_self_eq_true v.path
  · intro v' hother
    refine List.filter_eq_nil_iff.2 fun e he => ?_
    obtain ⟨r, -, rfl⟩ := List.mem_map.1 he
    simpa using hother

end VirtualFile

namespace Store

theorem replace_of_new {record : Record} {records : List Record}
    (h : record.provider ∉ records.map (·.provider)) :
    replace record records = records ++ [record] := by
  induction records with
  | nil => rfl
  | cons r rest ih =>
    rw [List.map_cons, List.mem_cons, not_or] at h
    rw [replace, if_neg (Ne.symm h.1), ih h.2, List.cons_append]

theorem nextRecord_of_new {records : List Record} {provider : Provider}
    (h : provider ∉ records.map (·.provider)) (outcome : FileOutcome) (now : Time) :
    nextRecord records provider outcome now = .ofOutcome provider outcome now none := by
  have hnone : records.find? (fun r => r.provider = provider) = none := by
    refine List.find?_eq_none.2 fun r hr heq => h ?_
    rw [← of_decide_eq_true heq]
    exact List.mem_map_of_mem hr
  rw [nextRecord, hnone]
  rfl

theorem find?_replace (record : Record) (records : List Record) (p : Provider) :
    (replace record records).find? (fun r => r.provider = p) =
      if record.provider = p then some record else records.find? fun r => r.provider = p := by
  induction records with
  | nil =>
    rw [replace, List.find?_singleton]
    simp only [decide_eq_true_eq, List.find?_nil]
  | cons r rest ih =>
    rw [replace]
    by_cases hsame : r.provider = record.provider
    · rw [if_pos hsame, List.find?_cons, List.find?_cons, hsame]
      by_cases hp : record.provider = p <;> simp [hp]
    · rw [if_neg hsame, List.find?_cons, ih]
      by_cases hp : r.provider = p
      · subst hp
        simp [Ne.symm hsame]
      · simp [hp]

end Store

namespace VirtualFile

theorem foldl_observe_of_new {records : List Record} {os : List Observation}
    (h : (records.map (·.provider) ++ os.map (·.provider)).Nodup) :
    os.foldl observe records =
      records ++ os.map fun o => .ofOutcome o.provider o.outcome o.moment none := by
  induction os generalizing records with
  | nil => exact (List.append_nil records).symm
  | cons o rest ih =>
    have hnew : o.provider ∉ records.map (·.provider) := fun hmem =>
      (List.nodup_append.1 h).2.2 _ hmem _ List.mem_cons_self rfl
    have hobserve : observe records o =
        records ++ [.ofOutcome o.provider o.outcome o.moment none] := by
      rw [observe, Store.nextRecord_of_new hnew, Store.replace_of_new]
      rw [ofOutcome_provider]
      exact hnew
    rw [List.foldl_cons, hobserve, ih, List.append_assoc, List.map_cons]
    · rfl
    · rw [List.map_append, List.map_singleton, ofOutcome_provider, List.append_assoc]
      exact h

theorem ofOutcome_state (provider : Provider) (outcome : FileOutcome) (at_ : Time)
    (previous : Option Record) :
    (Record.ofOutcome provider outcome at_ previous).state = outcome.state := by
  cases outcome <;> rfl

theorem state_foldl_observe {os : List Observation} {o : Observation}
    (h : (os.map (·.provider)).Nodup) (ho : o ∈ os) (records : List Record) :
    ((os.foldl observe records).find? fun r => r.provider = o.provider).map (·.state) =
      some o.outcome.state := by
  induction os using List.reverseRecOn with
  | nil => cases ho
  | append_singleton os o' ih =>
    rw [List.map_append, List.map_singleton] at h
    obtain ⟨hos, -, hapart⟩ := List.nodup_append.1 h
    rw [List.foldl_append, List.foldl_cons, List.foldl_nil, observe, Store.find?_replace,
      nextRecord_provider]
    rcases List.mem_append.1 ho with ho | ho
    · have hne : o'.provider ≠ o.provider :=
        (hapart _ (List.mem_map_of_mem ho) _ (List.mem_singleton.2 rfl)).symm
      rw [if_neg hne]
      exact ih hos ho
    · rw [List.mem_singleton.1 ho, if_pos rfl, Option.map_some, Store.nextRecord, ofOutcome_state]

end VirtualFile

def Store.stateOf? (s : Store) (path : String) (p : Provider) : Option FileState :=
  ((s.records path).find? fun r => r.provider = p).map (·.state)

namespace Relay

variable {relay : Relay} {key : Key} {root : String} {w w' : World} {created : List VirtualFile}

/-- What adding content comes to, if it does not fail. -/
structure Added (relay : Relay) (key : Key) (root : String) (w w' : World)
    (created : List VirtualFile) (resolutions : List Resolution) : Prop where
  resolved : ∃ v, relay.policy.resolve key w = (.ok resolutions, v)
  providers : resolutions.map (·.provider) = (w.clientsFor key.kind).map (·.2)
  own {r : Resolution} (h : r ∈ resolutions) : r.ListsOwn
  created : created = VirtualFile.ofFiles root (Resolution.files resolutions)
  files : ∃ moments, w'.store.backend.files =
    (VirtualFile.writes moments (VirtualFile.entries root resolutions)).foldl Catalog.apply
      w.store.backend.files

theorem added (hrest : w.AtRest) (hproviders : ((w.clientsFor key.kind).map (·.2)).Nodup)
    (hown : ∀ c ∈ w.clients, c.supports key.kind = true → c.ListsOwn)
    (h : relay.addContent key root w = (.ok created, w')) :
    ∃ resolutions, relay.Added key root w w' created resolutions := by
  obtain ⟨resolutions, v, hresolve, h⟩ := Session.ok_of_bind h
  obtain ⟨hlisted, hownFiles, hstore⟩ :=
    RetryPolicy.resolve_lists hrest hproviders hown hresolve
  dsimp only at h
  split at h
  · cases h
  · obtain ⟨⟨⟩, v', hrecord, h⟩ := Session.ok_of_bind h
    cases h
    have hafter := Store.afterAll?_files (VirtualFile.afterAll?_of_record hrecord)
    rw [hstore] at hafter
    exact ⟨resolutions, ⟨v, hresolve⟩, hlisted, fun hr => hownFiles _ hr, rfl, _, hafter⟩

namespace Added

variable {resolutions : List Resolution} {v : VirtualFile}

def remoteOf (root : String) (resolutions : List Resolution) (v : VirtualFile) : String :=
  VirtualFile.remotePath root (Resolution.files resolutions) v.path

theorem records (h : relay.Added key root w w' created resolutions) (hv : v ∈ created) :
    ∃ os, List.Forall₂ (fun r o => o.provider = r.provider ∧
        o.outcome = r.outcome.forFile (remoteOf root resolutions v)) resolutions os ∧
      w'.store.records v.path = os.foldl VirtualFile.observe (w.store.records v.path) := by
  obtain ⟨moments, hfiles⟩ := h.files
  rw [h.created] at hv
  have hobserved := VirtualFile.observations_writes v.path moments
    (VirtualFile.entries root resolutions)
  rw [VirtualFile.filter_entries hv, List.forall₂_map_left_iff] at hobserved
  refine ⟨_, hobserved, ?_⟩
  rw [Store.records, Backend.records, hfiles, VirtualFile.records_foldl_apply]
  · rfl
  · exact VirtualFile.deletes_writes v.path moments _

theorem nodup_providers (h : relay.Added key root w w' created resolutions)
    (hproviders : ((w.clientsFor key.kind).map (·.2)).Nodup) {os : List Observation}
    (hos : List.Forall₂ (fun r o => o.provider = r.provider ∧
      o.outcome = r.outcome.forFile (remoteOf root resolutions v)) resolutions os) :
    os.map (·.provider) = (w.clientsFor key.kind).map (·.2) ∧ (os.map (·.provider)).Nodup := by
  have hsame : List.Forall₂ Eq (resolutions.map (·.provider)) (os.map (·.provider)) := by
    rw [List.forall₂_map_left_iff, List.forall₂_map_right_iff]
    exact hos.imp fun r o ho => ho.1.symm
  rw [List.forall₂_eq_eq_eq] at hsame
  rw [← hsame, h.providers]
  exact ⟨rfl, hproviders⟩

theorem records_of_new (h : relay.Added key root w w' created resolutions)
    (hproviders : ((w.clientsFor key.kind).map (·.2)).Nodup) (hv : v ∈ created)
    (hnew : v.path ∉ w.store.paths) :
    (w'.store.records v.path).map (·.provider) = (w.clientsFor key.kind).map (·.2) ∧
      ∃ file, (w'.store.records v.path).findSome? Record.toFile? = some file ∧
        file.size = v.size ∧ file.mimeType = v.mimeType ∧
        v.providers.head? = some file.provider := by
  obtain ⟨os, hos, hrecords⟩ := h.records hv
  obtain ⟨hsame, hnodup⟩ := h.nodup_providers hproviders hos
  have hempty : w.store.records v.path = [] := by
    have hnone := mt (Dictionary.mem_keys w.store.backend.files v.path).2 hnew
    rw [Store.records, Backend.records, Catalog.records]
    rw [Option.isSome_iff_ne_none, not_not] at hnone
    rw [hnone]
    rfl
  rw [hempty, VirtualFile.foldl_observe_of_new (by simpa using hnodup), List.nil_append] at hrecords
  constructor
  · rw [hrecords, List.map_map, ← hsame]
    exact List.map_congr_left fun o _ => ofOutcome_provider ..
  · rw [h.created] at hv
    obtain ⟨p, hhead, hfirst⟩ := VirtualFile.first_answer (fun r => h.own) hv
    have hfound : (w'.store.records v.path).findSome? (fun r => r.toFile?.map fun f =>
        (f.provider, f.size, f.mimeType)) = some (p, v.size, v.mimeType) := by
      rw [hrecords, List.findSome?_map, ← hfirst]
      refine (findSome?_of_forall₂ (hos.imp fun r o ho => ?_)).symm
      obtain ⟨hprovider, houtcome⟩ := ho
      rw [remoteOf] at houtcome
      rw [Function.comp, ← houtcome, ← hprovider]
      cases o.outcome <;> rfl
    have hmap := List.map_findSome? (f := Record.toFile?)
      (g := fun f => (f.provider, f.size, f.mimeType)) (l := w'.store.records v.path)
    obtain ⟨file, hfile, hsays⟩ := Option.map_eq_some_iff.1 (hmap.trans hfound)
    rw [Prod.mk.injEq, Prod.mk.injEq] at hsays
    obtain ⟨rfl, hsize, hmimeType⟩ := hsays
    exact ⟨file, hfile, hsize, hmimeType, hhead⟩

theorem stateOf? (h : relay.Added key root w w' created resolutions)
    (hproviders : ((w.clientsFor key.kind).map (·.2)).Nodup) (hv : v ∈ created) {r : Resolution}
    (hr : r ∈ resolutions) :
    w'.store.stateOf? v.path r.provider =
      some (r.outcome.forFile (remoteOf root resolutions v)).state := by
  obtain ⟨os, hos, hrecords⟩ := h.records hv
  obtain ⟨-, hnodup⟩ := h.nodup_providers hproviders hos
  obtain ⟨o, ho, hprovider, houtcome⟩ := exists_of_forall₂ hos hr
  rw [Store.stateOf?, hrecords, ← hprovider, VirtualFile.state_foldl_observe hnodup ho, houtcome]

end Added
end Relay

/-- Content that is added at unknown paths can be served: each virtual file has one record for each
    provider of the key, in order, and without asking any provider its link is found, with the
    file's size and media type, from the first provider that holds it. -/
theorem added_content_is_served (relay : Relay) (key : Key) (root : String) {w w' : World}
    {created : List VirtualFile} (hrest : w.AtRest)
    (hproviders : ((w.clientsFor key.kind).map (·.2)).Nodup)
    (hown : ∀ c ∈ w.clients, c.supports key.kind = true → c.ListsOwn)
    (hadd : relay.addContent key root w = (.ok created, w'))
    (hnew : ∀ v ∈ created, v.path ∉ w.store.paths) :
    ∀ v ∈ created,
      providersFor key w = (.ok ((w'.store.records v.path).map (·.provider)), w) ∧
      ∃ file, relay.fileLink v.path key w' = (.ok file, w') ∧ file.size = v.size ∧
        file.mimeType = v.mimeType ∧ v.providers.head? = some file.provider := by
  intro v hv
  obtain ⟨resolutions, hadded⟩ := Relay.added hrest hproviders hown hadd
  obtain ⟨hrecords, file, hfile, hsays⟩ := hadded.records_of_new hproviders hv (hnew v hv)
  refine ⟨?_, file, ?_, hsays⟩
  · rw [hrecords]
    rfl
  · have hread : Session.records v.path w' = (.ok (w'.store.records v.path), w') := rfl
    rw [Relay.fileLink, Session.bind_of_ok hread, hfile]
    rfl

/-- Two providers list the same file, one with leading slashes and under two sizes. -/
theorem added_content_is_served_of_two :
    let file (path : String) (size : Nat) (p : Provider) : CachedFile :=
      ⟨path, size, none, "link", p, 0, ∅⟩
    let w := World.start
      [.having .easynews [file "a" 3 .easynews],
        .having .premiumize
          [file "//b" 5 .premiumize, file "b" 6 .premiumize, file "a" 3 .premiumize]]
      (.ofStandard .standard) ⟨.memory, default⟩ ⟨[], [], .common⟩ (fun _ => 0)
    let relay : Relay := ⟨⟨0, 0, 0⟩⟩
    let key : Key := .torrent "hash" "magnet"
    ∃ created w', relay.addContent key "/m/" w = (.ok created, w') ∧
      created.map (fun v => (v.path, v.size, v.providers)) =
        [("/m/a", 3, [.easynews, .premiumize]), ("/m/b", 5, [.premiumize])] ∧
      ∀ v ∈ created,
        providersFor key w = (.ok ((w'.store.records v.path).map (·.provider)), w) ∧
        ∃ file, relay.fileLink v.path key w' = (.ok file, w') ∧ file.size = v.size ∧
          file.mimeType = v.mimeType ∧ v.providers.head? = some file.provider := by
  intro file w relay key
  have hrest : w.AtRest := ⟨Limiter.atRest_ofStandard .standard, rfl⟩
  have hproviders : ((w.clientsFor key.kind).map (·.2)).Nodup := by decide
  have hown : ∀ c ∈ w.clients, c.supports key.kind = true → c.ListsOwn := by
    simp [w, World.start, file]
  have hcreated : (relay.addContent key "/m/" w).1.toOption.map
      (List.map fun v => (v.path, v.size, v.providers)) =
        some [("/m/a", 3, [.easynews, .premiumize]), ("/m/b", 5, [.premiumize])] := by
    decide +kernel
  rcases hadd : relay.addContent key "/m/" w with ⟨halt | created, w'⟩
  · rw [hadd] at hcreated
    cases hcreated
  · rw [hadd] at hcreated
    refine ⟨created, w', rfl, Option.some.inj hcreated, ?_⟩
    exact added_content_is_served relay key "/m/" hrest hproviders hown hadd
      fun v _ => List.not_mem_nil

/-- A virtual file lists every provider that has a file at its path, however the provider spells
    it. Recorded as cached are only those that spell it as the first provider does. -/
theorem added_content_is_recorded_as_spelled (relay : Relay) (key : Key) (root : String)
    {w w' : World} {created : List VirtualFile} (hrest : w.AtRest)
    (hproviders : ((w.clientsFor key.kind).map (·.2)).Nodup)
    (hown : ∀ c ∈ w.clients, c.supports key.kind = true → c.ListsOwn)
    (hadd : relay.addContent key root w = (.ok created, w')) :
    ∃ resolutions v, relay.policy.resolve key w = (.ok resolutions, v) ∧
      resolutions.map (·.provider) = (w.clientsFor key.kind).map (·.2) ∧
      ∀ v ∈ created, ∃ remote, virtualPath root remote = v.path ∧ ∀ r ∈ resolutions,
        (r.provider ∈ v.providers ↔ ∃ f ∈ r.outcome.files, virtualPath root f.path = v.path) ∧
        (w'.store.stateOf? v.path r.provider = some .cached ↔
          ∃ f ∈ r.outcome.files, f.path = remote) := by
  obtain ⟨resolutions, hadded⟩ := Relay.added hrest hproviders hown hadd
  obtain ⟨after, hresolved⟩ := hadded.resolved
  refine ⟨resolutions, after, hresolved, hadded.providers, fun v hv => ?_⟩
  have hcreated := hv
  rw [hadded.created] at hcreated
  obtain ⟨f, -, hremote, hat⟩ := VirtualFile.isAt_remotePath hcreated
  refine ⟨Relay.Added.remoteOf root resolutions v, ?_, fun r hr => ⟨?_, ?_⟩⟩
  · rw [Relay.Added.remoteOf, hremote]
    exact VirtualFile.isAt_iff.1 hat
  · rw [VirtualFile.mem_providers (fun r => hadded.own) hcreated]
    simp only [VirtualFile.isAt_iff]
    constructor
    · rintro ⟨r', hr', hsame, hlisted⟩
      have hnodup : (resolutions.map (·.provider)).Nodup := hadded.providers ▸ hproviders
      rwa [List.inj_on_of_nodup_map hnodup hr' hr hsame] at hlisted
    · exact fun hlisted => ⟨r, hr, rfl, hlisted⟩
  · rw [hadded.stateOf? hproviders hv hr, Option.some_inj, Outcome.state_forFile]

/-- Two providers that spell a file alike are both recorded as cached. -/
theorem added_content_is_recorded_as_spelled_alike :
    let w := World.start
      [.having .premiumize [⟨"a", 3, none, "link", .premiumize, 0, ∅⟩],
        .having .easynews [⟨"a", 3, none, "link", .easynews, 0, ∅⟩]]
      (.ofStandard .standard) ⟨.memory, default⟩ ⟨[], [], .common⟩ (fun _ => 0)
    let relay : Relay := ⟨⟨0, 0, 0⟩⟩
    let key : Key := .torrent "hash" "magnet"
    ∃ created w', relay.addContent key "/m" w = (.ok created, w') ∧
      w'.store.stateOf? "/m/a" .premiumize = some .cached ∧
      w'.store.stateOf? "/m/a" .easynews = some .cached ∧
      ∃ resolutions v, relay.policy.resolve key w = (.ok resolutions, v) ∧
        resolutions.map (·.provider) = (w.clientsFor key.kind).map (·.2) ∧
        ∀ v ∈ created, ∃ remote, virtualPath "/m" remote = v.path ∧ ∀ r ∈ resolutions,
          (r.provider ∈ v.providers ↔ ∃ f ∈ r.outcome.files, virtualPath "/m" f.path = v.path) ∧
          (w'.store.stateOf? v.path r.provider = some .cached ↔
            ∃ f ∈ r.outcome.files, f.path = remote) := by
  intro w relay key
  have hrest : w.AtRest := ⟨Limiter.atRest_ofStandard .standard, rfl⟩
  have hproviders : ((w.clientsFor key.kind).map (·.2)).Nodup := by decide
  have hown : ∀ c ∈ w.clients, c.supports key.kind = true → c.ListsOwn := by simp [w, World.start]
  have hok : (relay.addContent key "/m" w).1.toOption.isSome = true := by decide +kernel
  have hpremiumize : (relay.addContent key "/m" w).2.store.stateOf? "/m/a" .premiumize =
      some .cached := by decide +kernel
  have heasynews : (relay.addContent key "/m" w).2.store.stateOf? "/m/a" .easynews =
      some .cached := by decide +kernel
  rcases hadd : relay.addContent key "/m" w with ⟨halt | created, w'⟩
  · rw [hadd] at hok
    cases hok
  · rw [hadd] at hpremiumize heasynews
    exact ⟨created, w', rfl, hpremiumize, heasynews,
      added_content_is_recorded_as_spelled relay key "/m" hrest hproviders hown hadd⟩

/-- A provider that spells the file otherwise is listed for it, and recorded as missing it. -/
theorem added_content_is_missed_if_spelled_otherwise :
    let w := World.start
      [.having .premiumize [⟨"a", 3, none, "link", .premiumize, 0, ∅⟩],
        .having .easynews [⟨"/a", 3, none, "link", .easynews, 0, ∅⟩]]
      (.ofStandard .standard) ⟨.memory, default⟩ ⟨[], [], .common⟩ (fun _ => 0)
    let relay : Relay := ⟨⟨0, 0, 0⟩⟩
    let key : Key := .torrent "hash" "magnet"
    w.AtRest ∧ ((w.clientsFor key.kind).map (·.2)).Nodup ∧
      (∀ c ∈ w.clients, c.supports key.kind = true → c.ListsOwn) ∧
      ∃ created w', relay.addContent key "/m" w = (.ok created, w') ∧
        created = [⟨"/m/a", 3, none, [.premiumize, .easynews]⟩] ∧
        w'.store.stateOf? "/m/a" .easynews = some .missing := by
  intro w relay key
  have hcreated : (relay.addContent key "/m" w).1.toOption =
      some [⟨"/m/a", 3, none, [.premiumize, .easynews]⟩] := by decide +kernel
  have hmissing : (relay.addContent key "/m" w).2.store.stateOf? "/m/a" .easynews =
      some .missing := by decide +kernel
  refine ⟨⟨Limiter.atRest_ofStandard .standard, rfl⟩, by decide, by simp [w, World.start], ?_⟩
  rcases hadd : relay.addContent key "/m" w with ⟨halt | created, w'⟩
  · rw [hadd] at hcreated
    cases hcreated
  · rw [hadd] at hcreated hmissing
    exact ⟨created, w', rfl, Option.some.inj hcreated, hmissing⟩

end LinkRelay
