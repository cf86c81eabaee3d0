import LinkRelay.Proofs.Store.History
import LinkRelay.VirtualFile
set_option autoImplicit false

/-!
# From listings to virtual files

The files of all listings, each identity once, are grouped by the paths they come to. A virtual file
tells the first file of its group, and the providers of all of them. Looking for the first file's
own path in the listings finds the same file again.
-/

namespace LinkRelay

theorem findSome?_of_forall₂ {α β γ : Type} {f : α → Option γ} {g : β → Option γ} {as : List α}
    {bs : List β} (h : List.Forall₂ (fun a b => f a = g b) as bs) :
    as.findSome? f = bs.findSome? g := by
  induction h with
  | nil => rfl
  | cons hfirst _ ih => rw [List.findSome?_cons, List.findSome?_cons, hfirst, ih]

theorem exists_of_forall₂ {α β : Type} {R : α → β → Prop} {as : List α} {bs : List β}
    (h : List.Forall₂ R as bs) {a : α} (ha : a ∈ as) : ∃ b ∈ bs, R a b := by
  induction h with
  | nil => cases ha
  | cons hfirst _ ih =>
    rcases List.mem_cons.1 ha with rfl | ha
    · exact ⟨_, List.mem_cons_self, hfirst⟩
    · obtain ⟨b, hb, hrelated⟩ := ih ha
      exact ⟨b, List.mem_cons_of_mem _ hb, hrelated⟩

namespace CachedFile

theorem same_iff {a b : CachedFile} :
    same a b = true ↔ a.path = b.path ∧ a.size = b.size ∧ a.provider = b.provider := by
  simp [same]

theorem distinct_append_singleton (files : List CachedFile) (f : CachedFile) :
    distinct (files ++ [f]) =
      if (distinct files).any (same f) then distinct files else distinct files ++ [f] := by
  unfold distinct
  rw [List.foldl_append, List.foldl_cons, List.foldl_nil, List.any_reverse]
  split
  · rfl
  · rw [List.reverse_cons]

theorem mem_of_mem_distinct {files : List CachedFile} {f : CachedFile} (h : f ∈ distinct files) :
    f ∈ files := by
  induction files using List.reverseRecOn with
  | nil => exact h
  | append_singleton files g ih =>
    rw [distinct_append_singleton] at h
    rw [List.mem_append]
    split at h
    · exact .inl (ih h)
    · exact (List.mem_append.1 h).imp_left ih

theorem exists_same {files : List CachedFile} {f : CachedFile} (h : f ∈ files) :
    ∃ g ∈ distinct files, same f g = true := by
  induction files using List.reverseRecOn with
  | nil => cases h
  | append_singleton files g ih =>
    have hself : same f f = true := same_iff.2 ⟨rfl, rfl, rfl⟩
    rw [distinct_append_singleton]
    rcases List.mem_append.1 h with h | h
    · obtain ⟨g', hg', hsame⟩ := ih h
      split
      · exact ⟨g', hg', hsame⟩
      · exact ⟨g', List.mem_append_left _ hg', hsame⟩
    · obtain rfl := List.mem_singleton.1 h
      split
      next hknown => exact List.any_eq_true.1 hknown
      next => exact ⟨f, List.mem_append_right _ (List.mem_singleton.2 rfl), hself⟩

theorem find?_distinct {q : CachedFile → Bool} (hq : ∀ a b, same a b = true → q a = q b)
    (files : List CachedFile) : (distinct files).find? q = files.find? q := by
  induction files using List.reverseRecOn with
  | nil => rfl
  | append_singleton files f ih =>
    rw [distinct_append_singleton, List.find?_append, ← ih]
    split
    next hknown =>
      obtain ⟨g, hg, hsame⟩ := List.any_eq_true.1 hknown
      cases hfound : (distinct files).find? q with
      | some found => rfl
      | none =>
        have hnot : q f = false := by
          rw [hq f g hsame]
          simpa using List.find?_eq_none.1 hfound g hg
        simp [hnot]
    next => rw [List.find?_append]

end CachedFile

namespace VirtualFile

def isAt (root path : String) (f : CachedFile) : Bool := virtualPath root f.path == path

theorem isAt_iff {root path : String} {f : CachedFile} :
    isAt root path f = true ↔ virtualPath root f.path = path :=
  beq_iff_eq

/-- A virtual file that tells the first of the files at its path, and the providers of all. -/
structure Tells (root : String) (files : List CachedFile) (v : VirtualFile) : Prop where
  first : ∃ f, files.find? (isAt root v.path) = some f ∧ v.size = f.size ∧ v.mimeType = f.mimeType
  providers : v.providers = ((files.filter (isAt root v.path)).map (·.provider)).eraseDups

variable {root : String} {files : List CachedFile} {f : CachedFile} {v : VirtualFile}

theorem paths_add (root : String) (vs : List VirtualFile) (f : CachedFile) :
    (add root vs f).map (·.path) =
      if virtualPath root f.path ∈ vs.map (·.path) then vs.map (·.path)
      else vs.map (·.path) ++ [virtualPath root f.path] := by
  have hknown : (vs.any fun v => v.path == virtualPath root f.path) = true ↔
      virtualPath root f.path ∈ vs.map (·.path) := by simp
  have hjoin (v : VirtualFile) : (v.join f.provider).path = v.path := by
    unfold join
    split <;> rfl
  rw [add]
  split
  next h =>
    rw [if_pos (hknown.1 h), List.map_map]
    refine List.map_congr_left fun v _ => ?_
    simp only [Function.comp]
    split
    · exact hjoin v
    · rfl
  next h =>
    rw [if_neg (mt hknown.2 h), List.map_append]
    rfl

theorem paths_ofFiles (root : String) (files : List CachedFile) :
    (ofFiles root files).map (·.path) =
      (files.map fun f => virtualPath root f.path).eraseDups := by
  induction files using List.reverseRecOn with
  | nil => rfl
  | append_singleton files f ih =>
    rw [ofFiles, List.foldl_append, List.foldl_cons, List.foldl_nil, ← ofFiles, paths_add, ih,
      List.map_append, List.map_singleton, eraseDups_append_singleton]
    simp only [List.mem_eraseDups]

theorem nodup_paths (root : String) (files : List CachedFile) :
    ((ofFiles root files).map (·.path)).Nodup :=
  paths_ofFiles root files ▸ nodup_eraseDups _

theorem Tells.skip (h : v.Tells root files) (hother : virtualPath root f.path ≠ v.path) :
    v.Tells root (files ++ [f]) := by
  have hnot : isAt root v.path f = false := by
    rw [Bool.eq_false_iff]
    exact mt isAt_iff.1 hother
  obtain ⟨first, hfound, hsays⟩ := h.first
  refine ⟨⟨first, ?_, hsays⟩, ?_⟩
  · rw [List.find?_append, hfound, Option.some_or]
  · rw [List.filter_append, List.filter_singleton, hnot, cond_false, List.append_nil]
    exact h.providers

theorem Tells.join (h : v.Tells root files) (hat : virtualPath root f.path = v.path) :
    (v.join f.provider).Tells root (files ++ [f]) := by
  have hfilter : (files ++ [f]).filter (isAt root v.path) =
      files.filter (isAt root v.path) ++ [f] := by
    rw [List.filter_append, List.filter_singleton, isAt_iff.2 hat, cond_true]
  obtain ⟨first, hfound, hsays⟩ := h.first
  have hfound' : (files ++ [f]).find? (isAt root v.path) = some first := by
    rw [List.find?_append, hfound, Option.some_or]
  have hproviders : (((files ++ [f]).filter (isAt root v.path)).map (·.provider)).eraseDups =
      if f.provider ∈ v.providers then v.providers else v.providers ++ [f.provider] := by
    rw [hfilter, List.map_append, List.map_singleton, eraseDups_append_singleton, h.providers]
    simp only [List.mem_eraseDups]
  rw [VirtualFile.join]
  split
  next hknown => exact ⟨⟨first, hfound', hsays⟩, by rw [hproviders, if_pos (by simpa using hknown)]⟩
  next hnew =>
    refine ⟨⟨first, hfound', hsays⟩, ?_⟩
    change v.providers ++ [f.provider] = _
    rw [hproviders, if_neg (by simpa using hnew)]

theorem tells_first (hnew : virtualPath root f.path ∉ files.map fun f => virtualPath root f.path) :
    (first (virtualPath root f.path) f).Tells root (files ++ [f]) := by
  have hnot : ∀ g ∈ files, ¬ isAt root (virtualPath root f.path) g = true := fun g hg hat =>
    hnew (List.mem_map.2 ⟨g, hg, isAt_iff.1 hat⟩)
  have hat : isAt root (virtualPath root f.path) f = true := isAt_iff.2 rfl
  constructor
  · refine ⟨f, ?_, rfl, rfl⟩
    change (files ++ [f]).find? (isAt root (virtualPath root f.path)) = some f
    rw [List.find?_append, List.find?_eq_none.2 hnot, Option.none_or, List.find?_singleton, hat]
    rfl
  · change [f.provider] =
      (((files ++ [f]).filter (isAt root (virtualPath root f.path))).map (·.provider)).eraseDups
    rw [List.filter_append, List.filter_eq_nil_iff.2 hnot, List.filter_singleton, hat]
    rfl

theorem tells_ofFiles (root : String) (files : List CachedFile) :
    ∀ v ∈ ofFiles root files, v.Tells root files := by
  induction files using List.reverseRecOn with
  | nil => exact nofun
  | append_singleton files f ih =>
    have hpaths := paths_ofFiles root files
    intro v hv
    rw [ofFiles, List.foldl_append, List.foldl_cons, List.foldl_nil, ← ofFiles, add] at hv
    split at hv
    · obtain ⟨v, hold, rfl⟩ := List.mem_map.1 hv
      split
      next hat => exact (ih v hold).join hat.symm
      next hother => exact (ih v hold).skip (Ne.symm hother)
    next hnew =>
      have hunknown : virtualPath root f.path ∉ (ofFiles root files).map (·.path) := by
        simpa using hnew
      rcases List.mem_append.1 hv with hv | hv
      · refine (ih v hv).skip fun hat => hunknown ?_
        rw [hat]
        exact List.mem_map_of_mem hv
      · rw [List.mem_singleton.1 hv]
        rw [hpaths, List.mem_eraseDups] at hunknown
        exact tells_first hunknown

theorem find?_remote {path : String} (h : files.find? (isAt root path) = some f) :
    files.find? (fun g => g.path == f.path) = some f := by
  obtain ⟨hat, before, after, rfl, hbefore⟩ := List.find?_eq_some_iff_append.1 h
  refine List.find?_eq_some_iff_append.2 ⟨beq_self_eq_true _, before, after, rfl, fun g hg => ?_⟩
  have hnot : ¬ virtualPath root g.path = path := by simpa [isAt] using hbefore g hg
  rw [isAt_iff] at hat
  simp only [Bool.not_eq_true', beq_eq_false_iff_ne]
  intro hsame
  exact hnot (hsame ▸ hat)

end VirtualFile

namespace Outcome

theorem file?_forFile (o : Outcome) (path : String) :
    (o.forFile path).file? = o.files.find? fun f => f.path == path := by
  cases o with
  | cached files =>
    rw [forFile, Outcome.files]
    cases files.find? fun f => f.path == path <;> rfl
  | notCached => rfl
  | failed trouble => rfl

theorem cached_iff_file?_isSome (o : FileOutcome) : o.state = .cached ↔ o.file?.isSome = true := by
  cases o <;> simp [FileOutcome.state, FileOutcome.file?]

theorem state_forFile (o : Outcome) (path : String) :
    (o.forFile path).state = .cached ↔ ∃ f ∈ o.files, f.path = path := by
  rw [cached_iff_file?_isSome, file?_forFile, List.find?_isSome]
  simp only [beq_iff_eq]

end Outcome

/-- A provider's answer with none but its own files. -/
def Resolution.ListsOwn (r : Resolution) : Prop := ∀ f ∈ r.outcome.files, f.provider = r.provider

namespace VirtualFile

variable {root : String} {resolutions : List Resolution} {v : VirtualFile}

theorem mem_providers (hown : ∀ r ∈ resolutions, r.ListsOwn)
    (hv : v ∈ ofFiles root (Resolution.files resolutions)) {p : Provider} :
    p ∈ v.providers ↔
      ∃ r ∈ resolutions, r.provider = p ∧ ∃ f ∈ r.outcome.files, isAt root v.path f = true := by
  rw [(tells_ofFiles root _ v hv).providers, List.mem_eraseDups, List.mem_map]
  constructor
  · rintro ⟨f, hf, rfl⟩
    obtain ⟨hf, hat⟩ := List.mem_filter.1 hf
    obtain ⟨r, hr, hf⟩ := List.mem_flatMap.1 (CachedFile.mem_of_mem_distinct hf)
    exact ⟨r, hr, (hown r hr f hf).symm, f, hf, hat⟩
  · rintro ⟨r, hr, rfl, f, hf, hat⟩
    have hmem : f ∈ resolutions.flatMap fun r => r.outcome.files :=
      List.mem_flatMap.2 ⟨r, hr, hf⟩
    obtain ⟨g, hg, hsame⟩ := CachedFile.exists_same hmem
    obtain ⟨hpath, -, hprovider⟩ := CachedFile.same_iff.1 hsame
    refine ⟨g, List.mem_filter.2 ⟨hg, ?_⟩, hprovider.symm.trans (hown r hr f hf)⟩
    rw [isAt, ← hpath]
    exact hat

theorem isAt_remotePath {files : List CachedFile} (hv : v ∈ ofFiles root files) :
    ∃ f, files.find? (isAt root v.path) = some f ∧ remotePath root files v.path = f.path ∧
      isAt root v.path f = true := by
  obtain ⟨f, hfound, -⟩ := (tells_ofFiles root files v hv).first
  refine ⟨f, hfound, ?_, List.find?_some hfound⟩
  change ((files.find? (isAt root v.path)).map (·.path)).getD "" = f.path
  rw [hfound]
  rfl

theorem first_answer (hown : ∀ r ∈ resolutions, r.ListsOwn)
    (hv : v ∈ ofFiles root (Resolution.files resolutions)) :
    ∃ p, v.providers.head? = some p ∧ (resolutions.findSome? fun r =>
        (r.outcome.forFile (remotePath root (Resolution.files resolutions) v.path)).file?.map
          fun f => (r.provider, f.size, f.mimeType)) = some (p, v.size, v.mimeType) := by
  obtain ⟨⟨f, hfound, hsize, hmimeType⟩, hproviders⟩ := tells_ofFiles root _ v hv
  obtain ⟨f', hfound', hremote, -⟩ := isAt_remotePath hv
  obtain rfl : f = f' := Option.some.inj (hfound.symm.trans hfound')
  have hlisted : (resolutions.flatMap fun r => r.outcome.files).find? (isAt root v.path) =
      some f := by
    rw [← hfound, Resolution.files, CachedFile.find?_distinct]
    intro a b hsame
    rw [isAt, isAt, (CachedFile.same_iff.1 hsame).1]
  have hhead : v.providers.head? = some f.provider := by
    obtain ⟨rest, hrest⟩ := List.head?_eq_some_iff.1 ((List.head?_filter).trans hfound)
    rw [hproviders, hrest, List.map_cons, List.eraseDups_cons, List.head?_cons]
  -- the providers of the files may be named instead of those of the answers
  have hsame : (resolutions.findSome? fun r => (r.outcome.forFile f.path).file?.map
      fun f => (r.provider, f.size, f.mimeType)) =
      resolutions.findSome? fun r => (r.outcome.files.find? fun g => g.path == f.path).map
        fun f => (f.provider, f.size, f.mimeType) := by
    refine findSome?_of_forall₂ (List.forall₂_same.2 fun r hr => ?_)
    rw [Outcome.file?_forFile]
    refine Option.map_congr fun g hg => ?_
    rw [hown r hr g (List.mem_of_find?_eq_some hg)]
  have hmap := List.map_findSome?
    (f := fun r : Resolution => r.outcome.files.find? fun g => g.path == f.path)
    (g := fun f => (f.provider, f.size, f.mimeType)) (l := resolutions)
  rw [← List.find?_flatMap, find?_remote hlisted] at hmap
  refine ⟨f.provider, hhead, ?_⟩
  rw [hremote, hsame, hsize, hmimeType]
  exact hmap.symm

end VirtualFile

end LinkRelay
