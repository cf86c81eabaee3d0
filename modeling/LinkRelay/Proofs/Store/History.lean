import Mathlib.Data.List.Induction
import Mathlib.Data.List.Nodup
import Mathlib.Order.Bounds.Basic
import Mathlib.Order.MinMax
import LinkRelay.Proofs.Store.Backend
import LinkRelay.Store.Writers
set_option autoImplicit false

/-!
# The store as a function of its history

A history is the list of writes that a store has taken. What was observed on a path since it was
last deleted decides the path's records: one for each provider, in the order of their first
observations, each telling its provider's last outcome, the latest moment of all, and what the
last outcome with a file said about the file, on either backend.
-/

namespace LinkRelay

def FileOutcome.file? : FileOutcome → Option CachedFile
  | .cached file => some file
  | _ => none

/-- An outcome as the store was told it: whose it is, and when it was seen. -/
structure Observation where
  provider : Provider
  outcome : FileOutcome
  moment : Time

namespace Write

def observation? (path : String) : Write → Option Observation
  | .upsert p provider outcome now => if p = path then some ⟨provider, outcome, now⟩ else none
  | .delete _ => none

def deletes (path : String) : Write → Bool
  | .upsert .. => false
  | .delete p => p == path

end Write

/-- What was observed on a path since its last deletion, oldest first. -/
def observations (history : List Write) (path : String) : List Observation :=
  (history.reverse.takeWhile fun w => !w.deletes path).reverse.filterMap (·.observation? path)

namespace Observation

def ofProvider (provider : Provider) (os : List Observation) : List Observation :=
  os.filter fun o => o.provider = provider

def lastFile? (os : List Observation) : Option CachedFile :=
  (os.filterMap (·.outcome.file?)).getLast?

end Observation

open Observation

/-- A record tells observations of one provider: the state and the link of the last one, the
    latest moment of all, and the last file that was seen. -/
structure Record.Tells (r : Record) (os : List Observation) : Prop where
  last : ∃ o, os.getLast? = some o ∧ r.state = o.outcome.state ∧
    r.link = o.outcome.file?.map (·.link)
  latest : IsGreatest {t | ∃ o ∈ os, o.moment = t} r.lastChecked
  size : r.size = (lastFile? os).map (·.size)
  mimeType : r.mimeType = (lastFile? os).bind (·.mimeType)
  remotePath : r.remotePath = (lastFile? os).map (·.path)
  params : r.params = ((lastFile? os).map (·.params)).getD .empty

structure RecordsTell (os : List Observation) (records : List Record) : Prop where
  providers : records.map (·.provider) = (os.map (·.provider)).eraseDups
  tells : ∀ r ∈ records, r.Tells (ofProvider r.provider os)

theorem observations_append (history : List Write) (w : Write) (path : String) :
    observations (history ++ [w]) path =
      if w.deletes path then [] else observations history path ++ (w.observation? path).toList := by
  unfold observations
  rw [List.reverse_append, List.reverse_singleton, List.singleton_append, List.takeWhile_cons]
  cases w.deletes path with
  | true => rfl
  | false =>
    rw [Bool.not_false, if_pos rfl, if_neg Bool.false_ne_true, List.reverse_cons,
      List.filterMap_append]
    cases h : w.observation? path <;> simp [h]

theorem observations_extend (before after : List Write) (path : String)
    (h : ∀ w ∈ after, w.deletes path = false) :
    observations before path <+: observations (before ++ after) path := by
  induction after using List.reverseRecOn with
  | nil =>
    have hnil : before ++ [] = before := List.append_nil before
    exact hnil.symm ▸ List.prefix_rfl
  | append_singleton after w ih =>
    rw [← List.append_assoc, observations_append, h w (by simp), if_neg Bool.false_ne_true]
    exact (ih fun v hv => h v (List.mem_append_left _ hv)).trans (List.prefix_append _ _)

theorem ofProvider_append (p : Provider) (os : List Observation) (o : Observation) :
    ofProvider p (os ++ [o]) = if o.provider = p then ofProvider p os ++ [o] else ofProvider p os := by
  unfold ofProvider
  rw [List.filter_append]
  split <;> simp_all

theorem lastFile?_append (os : List Observation) (o : Observation) :
    lastFile? (os ++ [o]) = o.outcome.file?.or (lastFile? os) := by
  unfold lastFile?
  rw [List.filterMap_append]
  cases h : o.outcome.file? with
  | none => simp [h]
  | some file => simp [h]

theorem latest_append {os : List Observation} {t : Time} (o : Observation)
    (h : IsGreatest {t | ∃ o ∈ os, o.moment = t} t) :
    IsGreatest {t | ∃ o' ∈ os ++ [o], o'.moment = t} (max t o.moment) := by
  refine ⟨?_, ?_⟩
  · rcases max_choice t o.moment with he | he
    · obtain ⟨o', ho', ht⟩ := h.1
      exact ⟨o', List.mem_append_left _ ho', ht.trans he.symm⟩
    · exact ⟨o, by simp, he.symm⟩
  · rintro u ⟨o', ho', rfl⟩
    rcases List.mem_append.1 ho' with ho' | ho'
    · exact (h.2 ⟨o', ho', rfl⟩).trans (le_max_left _ _)
    · rw [List.mem_singleton.1 ho']
      exact le_max_right _ _

theorem ofOutcome_of_file?_eq_none {provider : Provider} {outcome : FileOutcome} {at_ : Time}
    {previous : Option Record} (h : outcome.file? = none) :
    Record.ofOutcome provider outcome at_ previous =
      { provider, state := outcome.state, lastChecked := at_, link := none,
        size := previous.bind (·.size), mimeType := previous.bind (·.mimeType),
        remotePath := previous.bind (·.remotePath),
        params := (previous.map (·.params)).getD .empty } := by
  cases outcome with
  | cached file => cases h
  | missing => rfl
  | failed trouble => rfl

theorem ofOutcome_of_file? {provider : Provider} {outcome : FileOutcome} {at_ : Time}
    {previous : Option Record} {file : CachedFile} (h : outcome.file? = some file) :
    Record.ofOutcome provider outcome at_ previous =
      { provider, state := outcome.state, lastChecked := at_, link := some file.link,
        size := some file.size, mimeType := file.mimeType, remotePath := some file.path,
        params := file.params } := by
  cases outcome with
  | cached f => cases h; rfl
  | missing => cases h
  | failed trouble => cases h

theorem tells_ofOutcome {previous : Option Record} {os : List Observation} (o : Observation)
    (hnone : previous = none → os = []) (hsome : ∀ r ∈ previous, r.Tells os) :
    (Record.ofOutcome o.provider o.outcome
      ((previous.map fun r => max r.lastChecked o.moment).getD o.moment) previous).Tells
        (os ++ [o]) := by
  have hlast : (os ++ [o]).getLast? = some o := List.getLast?_concat
  have hlatest : IsGreatest {t | ∃ o' ∈ os ++ [o], o'.moment = t}
      ((previous.map fun r => max r.lastChecked o.moment).getD o.moment) := by
    cases previous with
    | none => rw [hnone rfl]; simp
    | some r => exact latest_append o (hsome r rfl).latest
  cases ho : o.outcome.file? with
  | some file =>
    have hfile : lastFile? (os ++ [o]) = some file := by rw [lastFile?_append, ho]; rfl
    rw [ofOutcome_of_file? ho]
    constructor
    · exact ⟨o, hlast, rfl, by rw [ho]; rfl⟩
    · exact hlatest
    all_goals rw [hfile]; rfl
  | none =>
    have hfile : lastFile? (os ++ [o]) = lastFile? os := by rw [lastFile?_append, ho]; rfl
    rw [ofOutcome_of_file?_eq_none ho]
    refine ⟨⟨o, hlast, rfl, by rw [ho]; rfl⟩, hlatest, ?_, ?_, ?_, ?_⟩ <;> rw [hfile]
    · cases previous with
      | none => rw [hnone rfl]; rfl
      | some r => exact (hsome r rfl).size
    · cases previous with
      | none => rw [hnone rfl]; rfl
      | some r => exact (hsome r rfl).mimeType
    · cases previous with
      | none => rw [hnone rfl]; rfl
      | some r => exact (hsome r rfl).remotePath
    · cases previous with
      | none => rw [hnone rfl]; rfl
      | some r => exact (hsome r rfl).params

theorem ofOutcome_provider (provider : Provider) (outcome : FileOutcome) (at_ : Time)
    (previous : Option Record) :
    (Record.ofOutcome provider outcome at_ previous).provider = provider := by
  cases outcome <;> rfl

theorem nextRecord_provider (records : List Record) (provider : Provider) (outcome : FileOutcome)
    (now : Time) : (Store.nextRecord records provider outcome now).provider = provider :=
  ofOutcome_provider _ _ _ _

theorem replace_providers (record : Record) (records : List Record) :
    (Store.replace record records).map (·.provider) =
      if record.provider ∈ records.map (·.provider) then records.map (·.provider)
      else records.map (·.provider) ++ [record.provider] := by
  induction records with
  | nil => rfl
  | cons r rest ih =>
    rw [Store.replace]
    by_cases h : r.provider = record.provider
    · simp [h]
    · rw [if_neg h, List.map_cons, ih]
      by_cases hm : record.provider ∈ rest.map (·.provider)
      · simp only [hm, if_true, List.map_cons, List.mem_cons, or_true]
      · simp only [hm, if_false, List.map_cons, List.mem_cons, or_false, Ne.symm h,
          List.cons_append]

theorem mem_replace {record r : Record} {records : List Record}
    (hn : (records.map (·.provider)).Nodup) (h : r ∈ Store.replace record records) :
    r = record ∨ (r ∈ records ∧ r.provider ≠ record.provider) := by
  induction records with
  | nil => exact .inl (List.mem_singleton.1 h)
  | cons first rest ih =>
    obtain ⟨hfirst, hrest⟩ := List.nodup_cons.1 hn
    rw [Store.replace] at h
    by_cases he : first.provider = record.provider
    · rw [if_pos he] at h
      refine (List.mem_cons.1 h).imp id fun hr => ⟨List.mem_cons_of_mem _ hr, fun heq => ?_⟩
      exact hfirst (List.mem_map.2 ⟨r, hr, heq.trans he.symm⟩)
    · rw [if_neg he] at h
      rcases List.mem_cons.1 h with rfl | h
      · exact .inr ⟨List.mem_cons_self, he⟩
      · exact (ih hrest h).imp id fun hr => ⟨List.mem_cons_of_mem _ hr.1, hr.2⟩

theorem Store.mem_replace_self (record : Record) (records : List Record) :
    record ∈ replace record records := by
  induction records with
  | nil => exact List.mem_cons_self
  | cons r rest ih =>
    rw [replace]
    split
    · exact List.mem_cons_self
    · exact List.mem_cons_of_mem _ ih

theorem Store.mem_replace_of_ne {record r : Record} {records : List Record} (h : r ∈ records)
    (hne : r.provider ≠ record.provider) : r ∈ replace record records := by
  induction records with
  | nil => cases h
  | cons first rest ih =>
    rw [replace]
    split
    next he =>
      refine List.mem_cons_of_mem _ ((List.mem_cons.1 h).resolve_left ?_)
      rintro rfl
      exact hne he
    next =>
      rcases List.mem_cons.1 h with rfl | h
      · exact List.mem_cons_self
      · exact List.mem_cons_of_mem _ (ih h)

theorem eraseDups_append_singleton {α : Type} [BEq α] [LawfulBEq α] (l : List α) (x : α) :
    (l ++ [x]).eraseDups = if x ∈ l then l.eraseDups else l.eraseDups ++ [x] := by
  rw [List.eraseDups_append]
  by_cases h : x ∈ l <;> simp [List.removeAll, h, List.eraseDups_cons]

theorem nodup_eraseDups {α : Type} [BEq α] [LawfulBEq α] (l : List α) : l.eraseDups.Nodup := by
  induction l using List.reverseRecOn with
  | nil => exact List.nodup_nil
  | append_singleton l x ih =>
    rw [eraseDups_append_singleton]
    by_cases h : x ∈ l
    · rw [if_pos h]
      exact ih
    · rw [if_neg h]
      refine List.nodup_append.2 ⟨ih, List.nodup_singleton x, fun a ha b hb => ?_⟩
      rw [List.mem_singleton.1 hb]
      rintro rfl
      exact h (List.mem_eraseDups.1 ha)

theorem RecordsTell.next {os : List Observation} {records : List Record} (o : Observation)
    (h : RecordsTell os records) :
    RecordsTell (os ++ [o])
      (Store.replace (Store.nextRecord records o.provider o.outcome o.moment) records) := by
  have hn : (records.map (·.provider)).Nodup := h.providers ▸ nodup_eraseDups _
  have hp := nextRecord_provider records o.provider o.outcome o.moment
  constructor
  · rw [replace_providers, hp, h.providers, List.map_append, List.map_singleton,
      eraseDups_append_singleton]
    simp only [List.mem_eraseDups]
  · intro r hr
    rw [ofProvider_append]
    rcases mem_replace hn hr with rfl | ⟨hr, hne⟩
    · rw [hp, if_pos rfl]
      apply tells_ofOutcome
      · intro hnone
        have habsent : o.provider ∉ os.map (·.provider) := by
          rw [← List.mem_eraseDups, ← h.providers, List.mem_map]
          rintro ⟨r, hr, he⟩
          simpa [he] using List.find?_eq_none.1 hnone r hr
        refine List.filter_eq_nil_iff.2 fun o' ho' => ?_
        rw [decide_eq_true_iff]
        exact fun he => habsent (he ▸ List.mem_map_of_mem ho')
      · intro r hr
        have he : r.provider = o.provider := by simpa using List.find?_some hr
        exact he ▸ h.tells r (List.mem_of_find?_eq_some hr)
    · rw [hp] at hne
      rw [if_neg (Ne.symm hne)]
      exact h.tells r hr

namespace Catalog

def apply (c : Catalog) : Write → Catalog
  | .upsert path provider outcome now =>
    c.insert path (Store.replace (Store.nextRecord (c.records path) provider outcome now)
      (c.records path))
  | .delete path => c.erase path

def ofHistory (history : List Write) : Catalog := history.foldl apply .empty

theorem ofHistory_append (history : List Write) (w : Write) :
    ofHistory (history ++ [w]) = (ofHistory history).apply w := by
  rw [ofHistory, List.foldl_append]
  rfl

theorem records_insert (c : Catalog) (path p : String) (records : List Record) :
    Catalog.records (c.insert path records) p = if p = path then records else c.records p := by
  rw [Catalog.records, Dictionary.get?_insert]
  split <;> rfl

theorem records_erase (c : Catalog) (path p : String) :
    Catalog.records (c.erase path) p = if p = path then [] else c.records p := by
  rw [Catalog.records, Dictionary.get?_erase]
  split <;> rfl

theorem records_ofHistory (history : List Write) (path : String) :
    RecordsTell (observations history path) ((ofHistory history).records path) := by
  induction history using List.reverseRecOn with
  | nil => exact ⟨rfl, fun r hr => absurd hr List.not_mem_nil⟩
  | append_singleton history w ih =>
    rw [ofHistory_append, observations_append]
    cases w with
    | upsert p provider outcome now =>
      rw [apply, records_insert]
      by_cases h : p = path
      · subst h
        simpa [Write.deletes, Write.observation?] using ih.next ⟨provider, outcome, now⟩
      · simpa [Write.deletes, Write.observation?, h, Ne.symm h] using ih
    | delete p =>
      rw [apply, records_erase]
      by_cases h : p = path
      · subst h
        simpa [Write.deletes] using
          (⟨rfl, fun r hr => absurd hr List.not_mem_nil⟩ : RecordsTell [] [])
      · simpa [Write.deletes, Write.observation?, h, Ne.symm h] using ih

theorem get?_ofHistory_eq_none (history : List Write) (path : String) :
    (ofHistory history).get? path = none ↔ observations history path = [] := by
  induction history using List.reverseRecOn with
  | nil => exact ⟨fun _ => rfl, fun _ => rfl⟩
  | append_singleton history w ih =>
    rw [ofHistory_append, observations_append]
    cases w with
    | upsert p provider outcome now =>
      rw [apply, Dictionary.get?_insert]
      by_cases h : p = path
      · subst h
        simp [Write.deletes, Write.observation?]
      · simpa [Write.deletes, Write.observation?, h, Ne.symm h] using ih
    | delete p =>
      rw [apply, Dictionary.get?_erase]
      by_cases h : p = path
      · subst h
        simp [Write.deletes]
      · simpa [Write.deletes, Write.observation?, h, Ne.symm h] using ih

theorem mem_keys_ofHistory (history : List Write) (path : String) :
    path ∈ (ofHistory history).keys ↔ observations history path ≠ [] := by
  rw [Dictionary.mem_keys, ne_eq, ← get?_ofHistory_eq_none, Option.isSome_iff_ne_none]

theorem find_eq (c : Catalog) (provider : Provider) (state : FileState) :
    c.find provider state = c.keys.flatMap fun path =>
      ((c.records path).filter fun r => r.provider = provider ∧ r.state = state).map (path, ·) := by
  rw [find, Dictionary.keys, List.flatMap_map]
  refine List.flatMap_congr fun e he => ?_
  rw [Catalog.records, c.get?_of_mem he]
  rfl

end Catalog

namespace Backend

variable {b b' : Backend} {files : Catalog} {path : String}

theorem change_ok (h : b.change files = (.ok (), b')) : b'.files = files := by
  have hchanged := b.changed files
  rw [h] at hchanged
  cases hchanged <;> rfl

theorem delete_ok {known : Bool} (h : b.delete path = (.ok known, b')) :
    b'.files = b.files.erase path := by
  cases hknown : b.files.get? path with
  | none =>
    rw [b.delete_of_unknown hknown] at h
    cases h
    exact (Dictionary.erase_of_get?_eq_none hknown).symm
  | some previous =>
    rw [b.delete_eq_change hknown] at h
    rcases hchange : b.change (b.files.erase path) with ⟨answer, after⟩
    rw [hchange] at h
    cases answer with
    | ok _ => cases h; exact change_ok hchange
    | error f => cases h

theorem delete_memory (h : b.disk = none) (path : String) :
    ∃ known, b.delete path = (.ok known, ⟨b.files.erase path, none⟩) := by
  cases hknown : b.files.get? path with
  | none =>
    rw [b.delete_of_unknown hknown, Dictionary.erase_of_get?_eq_none hknown, ← h]
    exact ⟨false, rfl⟩
  | some previous =>
    rw [b.delete_eq_change hknown, b.change_of_memory _ h]
    exact ⟨true, rfl⟩

end Backend

namespace Store

/-- What an upsert can come to: its record stands among those of the path, and in the file of the
    store if there is one, or no record is changed in either. -/
inductive Upserted (s : Store) (path : String) (p : Provider) (outcome : FileOutcome) (now : Time) :
    Except Failure Record × Store → Prop where
  | recorded {disk : Option Disk} (hdisk : disk.isSome = s.backend.disk.isSome)
    (hwritten : ∀ d, disk = some d → ∃ content,
      Snapshot.write? (s.backend.files.apply (.upsert path p outcome now)) = some content ∧
        d.read = .ok (some content)) :
    Upserted s path p outcome now (.ok (nextRecord (s.records path) p outcome now),
      { s with backend := ⟨s.backend.files.apply (.upsert path p outcome now), disk⟩ })
  | refused {disk : Option Disk} {f : Failure}
    (hread : disk.map Disk.read = s.backend.disk.map Disk.read)
    (hreason : Snapshot.write? (s.backend.files.apply (.upsert path p outcome now)) = none ∧
      f = .parse .timeBefore1970 ∨ ∃ fault, f = .store fault) :
    Upserted s path p outcome now (.error f, { s with backend := ⟨s.backend.files, disk⟩ })

theorem upserted (s : Store) (path : String) (p : Provider) (outcome : FileOutcome) (now : Time) :
    s.Upserted path p outcome now (s.upsertAt path p outcome now) := by
  have hchanged := s.backend.changed (s.backend.files.apply (.upsert path p outcome now))
  have hfiles : s.backend.files.insert path
      (replace (nextRecord (s.records path) p outcome now) (s.records path)) =
        s.backend.files.apply (.upsert path p outcome now) := rfl
  rw [upsertAt, Backend.save_eq_change, hfiles]
  rcases hchange : s.backend.change (s.backend.files.apply (.upsert path p outcome now)) with
    ⟨answer, b⟩
  rw [hchange] at hchanged
  cases hchanged with
  | memory hdisk =>
    refine .recorded (by rw [hdisk]) ?_
    rintro _ ⟨⟩
  | written hdisk hcontent hwrite =>
    refine .recorded (by rw [hdisk]; rfl) ?_
    rintro _ ⟨rfl⟩
    exact ⟨_, hcontent, Disk.read_of_write_ok hwrite⟩
  | refused f hdisk hread =>
    exact .refused (by rw [hdisk, Option.map_some, Option.map_some, hread])
      (Backend.refusal_of_change hchange)

def after? (s : Store) : Write → Option Store
  | .upsert path provider outcome now =>
    match s.upsertAt path provider outcome now with
    | (.ok _, t) => some t
    | (.error _, _) => none
  | .delete path =>
    match s.deleteFile path with
    | (.ok _, t) => some t
    | (.error _, _) => none

def afterAll? (s : Store) (history : List Write) : Option Store := history.foldlM after? s

variable {s t : Store}

theorem after?_files {w : Write} (h : s.after? w = some t) :
    t.backend.files = s.backend.files.apply w := by
  cases w with
  | upsert path provider outcome now =>
    have hupserted := s.upserted path provider outcome now
    rw [after?] at h
    generalize s.upsertAt path provider outcome now = result at h hupserted
    cases hupserted with
    | recorded => cases h; rfl
    | refused => cases h
  | delete path =>
    simp only [after?, deleteFile] at h
    rcases hdelete : s.backend.delete path with ⟨answer, b'⟩
    rw [hdelete] at h
    cases answer with
    | ok known => cases h; exact Backend.delete_ok hdelete
    | error f => cases h

theorem afterAll?_files {history : List Write} (h : s.afterAll? history = some t) :
    t.backend.files = history.foldl Catalog.apply s.backend.files := by
  induction history generalizing s with
  | nil => cases h; rfl
  | cons w rest ih =>
    rw [afterAll?, List.foldlM_cons] at h
    obtain ⟨u, hu, ht⟩ := Option.bind_eq_some_iff.1 h
    rw [ih ht, after?_files hu, List.foldl_cons]

theorem after?_memory (h : s.backend.disk = none) (w : Write) :
    ∃ t, s.after? w = some t ∧ t.backend.disk = none := by
  cases w with
  | upsert path provider outcome now =>
    simp only [after?, upsertAt, Backend.save_eq_change, Backend.change_of_memory _ h]
    exact ⟨_, rfl, rfl⟩
  | delete path =>
    obtain ⟨known, hdelete⟩ := Backend.delete_memory h path
    refine ⟨{ s with backend := ⟨s.backend.files.erase path, none⟩ }, ?_, rfl⟩
    simp only [after?, deleteFile, hdelete]

theorem afterAll?_memory (h : s.backend.disk = none) (history : List Write) :
    (s.afterAll? history).isSome := by
  induction history generalizing s with
  | nil => rfl
  | cons w rest ih =>
    obtain ⟨t, ht, hdisk⟩ := after?_memory h w
    rw [afterAll?, List.foldlM_cons, ht]
    exact ih hdisk

end Store

theorem Record.Tells.consistent {r : Record} {os : List Observation} (h : r.Tells os)
    (hc : r.state = .cached) : r.link.isSome ∧ r.size.isSome := by
  obtain ⟨o, ho, hstate, hlink⟩ := h.last
  obtain ⟨file, hfile⟩ : ∃ file, o.outcome = .cached file := by
    rw [hc] at hstate
    cases hout : o.outcome with
    | cached file => exact ⟨file, rfl⟩
    | missing => rw [hout] at hstate; cases hstate
    | failed trouble => rw [hout] at hstate; cases hstate
  obtain ⟨before, rfl⟩ := List.getLast?_eq_some_iff.1 ho
  rw [hlink, h.size, lastFile?_append, hfile]
  exact ⟨rfl, rfl⟩

theorem RecordsTell.later {os os' : List Observation} {records records' : List Record}
    (h : RecordsTell os records) (h' : RecordsTell os' records') (hp : os <+: os')
    {r : Record} (hr : r ∈ records) :
    ∃ r' ∈ records', r'.provider = r.provider ∧ r.lastChecked ≤ r'.lastChecked := by
  have hmem : r.provider ∈ records'.map (·.provider) := by
    have hos : r.provider ∈ (os.map (·.provider)).eraseDups :=
      h.providers ▸ List.mem_map_of_mem hr
    rw [h'.providers, List.mem_eraseDups]
    exact (hp.map _).subset (List.mem_eraseDups.1 hos)
  obtain ⟨r', hr', he⟩ := List.mem_map.1 hmem
  refine ⟨r', hr', he, (h.tells r hr).latest.mono (h'.tells r' hr').latest ?_⟩
  rintro t ⟨o, ho, rfl⟩
  rw [he]
  exact ⟨o, (hp.filter _).subset ho, rfl⟩

/-- What a store holds that has taken a history of writes. -/
structure Store.Reflects (s : Store) (history : List Write) : Prop where
  records : ∀ path, RecordsTell (observations history path) (s.records path)
  sorted_paths : s.paths.Pairwise (· < ·)
  mem_paths : ∀ path, path ∈ s.paths ↔ observations history path ≠ []
  recordsWith : ∀ provider state, s.recordsWith provider state = s.paths.flatMap fun path =>
    ((s.records path).filter fun r => r.provider = provider ∧ r.state = state).map (path, ·)
  consistent : ∀ path, ∀ r ∈ s.records path, r.state = .cached → r.link.isSome ∧ r.size.isSome
  nonempty : ∀ path ∈ s.paths, s.records path ≠ []

theorem Store.reflects_of_files {s : Store} {history : List Write}
    (h : s.backend.files = Catalog.ofHistory history) : s.Reflects history := by
  have hrecords : ∀ path, RecordsTell (observations history path) (s.records path) := fun path => by
    rw [Store.records, Backend.records, h]
    exact Catalog.records_ofHistory history path
  have hpaths : ∀ path, path ∈ s.paths ↔ observations history path ≠ [] := fun path => by
    rw [Store.paths, h]
    exact Catalog.mem_keys_ofHistory history path
  refine ⟨hrecords, s.backend.files.sorted_keys, hpaths, Catalog.find_eq _, ?_, ?_⟩
  · exact fun path r hr hc => ((hrecords path).tells r hr).consistent hc
  · intro path hpath hnil
    have hproviders := (hrecords path).providers
    rw [hnil] at hproviders
    obtain ⟨o, rest, ho⟩ := List.exists_cons_of_ne_nil ((hpaths path).1 hpath)
    rw [ho, List.map_cons, List.eraseDups_cons] at hproviders
    cases hproviders

/-- A store that was empty and has taken a history of writes reflects the history, on either
    backend; in memory no write fails. The moment of a provider's last check moves back only when
    the path is deleted. -/
theorem store_after_history (s : Store) (history : List Write)
    (hempty : s.backend.files = .empty) :
    (s.backend.disk = none → (s.afterAll? history).isSome) ∧
    ∀ t, s.afterAll? history = some t →
      t.Reflects history ∧
      ∀ before after path, history = before ++ after → (∀ w ∈ after, w.deletes path = false) →
        ∀ u, s.afterAll? before = some u → ∀ r ∈ u.records path, ∃ r' ∈ t.records path,
          r'.provider = r.provider ∧ r.lastChecked ≤ r'.lastChecked := by
  have hfiles : ∀ history t, s.afterAll? history = some t → t.Reflects history := by
    intro history t ht
    apply Store.reflects_of_files
    rw [Store.afterAll?_files ht, hempty]
    rfl
  refine ⟨fun hmemory => Store.afterAll?_memory hmemory history, fun t ht => ⟨hfiles _ t ht, ?_⟩⟩
  rintro before after path rfl hafter u hu r hr
  exact ((hfiles _ u hu).records path).later ((hfiles _ t ht).records path)
    (observations_extend before after path hafter) hr

/-- A history with a failure after a success, a moment that goes back, and a deletion, on a store
    that keeps a file. -/
theorem store_after_history_mixed :
    let file : CachedFile := ⟨"a.mkv", 7, none, "http://x/a", .premiumize, 0, .empty⟩
    let history : List Write :=
      [.upsert "/a" .easynews .missing 5, .upsert "/a" .premiumize (.cached file) 9,
       .upsert "/b" .premiumize .missing 1, .delete "/b",
       .upsert "/a" .premiumize (.failed .network) 3]
    let s : Store := ⟨⟨.empty, some ⟨"state.json", .folder, .absent, []⟩⟩, ⟨0, 0, 0, 0⟩⟩
    s.backend.files = .empty ∧ ∃ t, s.afterAll? history = some t ∧ t.Reflects history ∧
      (t.records "/a").map (·.lastChecked) = [5, 9] := by
  intro file history s
  obtain ⟨t, ht⟩ := Option.isSome_iff_exists.1 (by decide : (s.afterAll? history).isSome)
  refine ⟨rfl, t, ht, ((store_after_history s history rfl).2 t ht).1, ?_⟩
  have hmoments : (s.afterAll? history).map (fun t => (t.records "/a").map (·.lastChecked)) =
      some [5, 9] := by decide
  simpa [ht] using hmoments

end LinkRelay
