import LinkRelay.Proofs.Relay.Addition
set_option autoImplicit false

/-!
# Files that are kept, and files that are joined

Of the files in all listings, the first of each identity is kept. The kept files whose paths are the
same but for the slashes they begin with are joined into one virtual file, whatever the root.
-/

namespace LinkRelay

namespace CachedFile

/-- What a file is known by, whatever its link. -/
def identity (f : CachedFile) : String × Nat × Provider := (f.path, f.size, f.provider)

variable {files : List CachedFile} {f : CachedFile}

theorem same_iff_identity {a b : CachedFile} : same a b = true ↔ a.identity = b.identity := by
  rw [same_iff, identity, identity, Prod.mk.injEq, Prod.mk.injEq]

theorem any_same_iff : files.any (same f) = true ↔ f.identity ∈ files.map identity := by
  rw [List.any_eq_true, List.mem_map]
  simp only [same_iff_identity, eq_comm (a := f.identity)]

theorem identities_distinct (files : List CachedFile) :
    (distinct files).map identity = (files.map identity).eraseDups := by
  induction files using List.reverseRecOn with
  | nil => rfl
  | append_singleton files f ih =>
    have hknown : (distinct files).any (same f) = true ↔ f.identity ∈ files.map identity := by
      rw [any_same_iff, ih, List.mem_eraseDups]
    rw [distinct_append_singleton, List.map_append, List.map_singleton, eraseDups_append_singleton]
    by_cases h : f.identity ∈ files.map identity
    · rw [if_pos (hknown.2 h), if_pos h, ih]
    · rw [if_neg (mt hknown.1 h), if_neg h, List.map_append, ih, List.map_singleton]

theorem find?_of_mem_distinct (h : f ∈ distinct files) : files.find? (same f) = some f := by
  induction files using List.reverseRecOn with
  | nil => cases h
  | append_singleton files g ih =>
    rw [distinct_append_singleton] at h
    rw [List.find?_append]
    split at h
    next => rw [ih h, Option.some_or]
    next hnew =>
      rcases List.mem_append.1 h with h | h
      · rw [ih h, Option.some_or]
      · obtain rfl := List.mem_singleton.1 h
        have hfirst : ∀ g ∈ files, ¬ same f g = true := by
          intro g hg hsame
          obtain ⟨g', hg', hsame'⟩ := exists_same hg
          refine hnew (List.any_eq_true.2 ⟨g', hg', same_iff_identity.2 ?_⟩)
          exact (same_iff_identity.1 hsame).trans (same_iff_identity.1 hsame')
        rw [List.find?_eq_none.2 hfirst, Option.none_or, List.find?_singleton,
          same_iff_identity.2 rfl]
        rfl

end CachedFile

def barePath (path : String) : String := String.ofList (path.toList.dropWhile (· == '/'))

theorem virtualPath_eq_iff {root a b : String} :
    virtualPath root a = virtualPath root b ↔ barePath a = barePath b := by
  simp only [virtualPath, barePath, String.ofList_inj, List.append_cancel_left_eq,
    List.cons.injEq, true_and]

namespace VirtualFile

variable {root : String} {files : List CachedFile} {f : CachedFile} {v : VirtualFile}

def ofGroup (root : String) (f : CachedFile) (others : List CachedFile) : VirtualFile :=
  ⟨virtualPath root f.path, f.size, f.mimeType, ((f :: others).map (·.provider)).eraseDups⟩

def group (files : List CachedFile) (path : String) : List CachedFile :=
  files.filter fun f => barePath f.path == barePath path

theorem filter_isAt : files.filter (isAt root (virtualPath root f.path)) = group files f.path := by
  refine List.filter_congr fun g _ => ?_
  rw [Bool.eq_iff_iff, isAt_iff, virtualPath_eq_iff, beq_iff_eq]

theorem eq_ofGroup (hv : v ∈ ofFiles root files) :
    ∃ f others, group files f.path = f :: others ∧ v = ofGroup root f others := by
  obtain ⟨⟨f, hfound, hsize, hmimeType⟩, hproviders⟩ := tells_ofFiles root files v hv
  have hpath : virtualPath root f.path = v.path := isAt_iff.1 (List.find?_some hfound)
  obtain ⟨others, hgroup⟩ := List.head?_eq_some_iff.1 (List.head?_filter.trans hfound)
  rw [← hpath, filter_isAt] at hgroup
  refine ⟨f, others, hgroup, ?_⟩
  rw [← hpath, filter_isAt, hgroup] at hproviders
  obtain ⟨path, size, mimeType, providers⟩ := v
  rw [ofGroup, hpath, ← hsize, ← hmimeType, ← hproviders]

theorem exists_of_mem (root : String) (hf : f ∈ files) :
    ∃ v ∈ ofFiles root files, v.path = virtualPath root f.path ∧ f.provider ∈ v.providers := by
  have hpath : virtualPath root f.path ∈ (ofFiles root files).map (·.path) := by
    rw [paths_ofFiles, List.mem_eraseDups]
    exact List.mem_map_of_mem hf
  obtain ⟨v, hv, hvf⟩ := List.mem_map.1 hpath
  refine ⟨v, hv, hvf, ?_⟩
  rw [(tells_ofFiles root files v hv).providers, List.mem_eraseDups]
  exact List.mem_map_of_mem (List.mem_filter.2 ⟨hf, isAt_iff.2 hvf.symm⟩)

end VirtualFile

theorem Relay.answer_addContent {relay : Relay} {key : Key} (root : String) {w v : World}
    {resolutions : List Resolution} (h : relay.policy.resolve key w = (.ok resolutions, v)) :
    match (relay.addContent key root w).1 with
    | .ok answer => Resolution.files resolutions ≠ [] ∧
        answer = VirtualFile.ofFiles root (Resolution.files resolutions)
    | .error halt =>
        (Resolution.files resolutions = [] ∧ halt = .failure (.noCachedFiles key.display)) ∨
          ∃ f, Resolution.files resolutions ≠ [] ∧ halt = .failure f ∧ f.IsUnwritten := by
  have hadding := relay.adding key root w
  generalize relay.addContent key root w = ended at hadding
  cases hadding with
  | unresolved hresolve =>
    rw [h] at hresolve
    cases hresolve
  | empty hresolve hfiles =>
    rw [h] at hresolve
    cases hresolve
    exact .inl ⟨hfiles, rfl⟩
  | whole hresolve hfiles hdone =>
    rw [h] at hresolve
    cases hresolve
    exact ⟨hfiles, rfl⟩
  | stopped hresolve hfiles hentries hdone hrefused =>
    rw [h] at hresolve
    cases hresolve
    exact .inr ⟨_, hfiles, rfl, (Store.upsertAt_error hrefused).1⟩

open CachedFile VirtualFile

/-- Of the files in all listings, the first of each identity is kept, in order. Those whose paths are
    the same but for the slashes they begin with make one virtual file, with the size and the MIME
    type of the first and every provider once. No file is lost, and no path is made twice. -/
theorem listed_files_are_kept_once_and_joined (root : String) (resolutions : List Resolution) :
    let listed := resolutions.flatMap fun r => r.outcome.files
    let files := Resolution.files resolutions
    let created := ofFiles root files
    (files.map identity = (listed.map identity).eraseDups ∧ (files.map identity).Nodup ∧
        (∀ i, i ∈ files.map identity ↔
          ∃ r ∈ resolutions, ∃ f ∈ r.outcome.files, f.identity = i) ∧
        ∀ f ∈ files, listed.find? f.same = some f) ∧
      (created.map (·.path) = (files.map fun f => virtualPath root f.path).eraseDups ∧
        (created.map (·.path)).Nodup ∧
        (∀ v ∈ created, ∃ f others, group files f.path = f :: others ∧ v = ofGroup root f others) ∧
        (∀ f ∈ listed, ∃ v ∈ created,
          v.path = virtualPath root f.path ∧ f.provider ∈ v.providers) ∧
        ∀ f ∈ listed, ∀ g ∈ listed,
          (∃ v ∈ created, v.path = virtualPath root f.path ∧ v.path = virtualPath root g.path) ↔
            barePath f.path = barePath g.path) ∧
      ∀ (relay : Relay) (key : Key) (w v : World),
        relay.policy.resolve key w = (.ok resolutions, v) →
        match (relay.addContent key root w).1 with
        | .ok answer => files ≠ [] ∧ answer = created
        | .error halt => (files = [] ∧ halt = .failure (.noCachedFiles key.display)) ∨
            ∃ f, files ≠ [] ∧ halt = .failure f ∧ f.IsUnwritten := by
  intro listed files created
  have hidentities : files.map identity = (listed.map identity).eraseDups :=
    identities_distinct listed
  have hcovered : ∀ i, i ∈ files.map identity ↔
      ∃ r ∈ resolutions, ∃ f ∈ r.outcome.files, f.identity = i := by
    intro i
    rw [hidentities, List.mem_eraseDups, List.map_flatMap, List.mem_flatMap]
    simp only [List.mem_map]
  have hnotLost : ∀ f ∈ listed, ∃ v ∈ created,
      v.path = virtualPath root f.path ∧ f.provider ∈ v.providers := by
    intro f hf
    obtain ⟨g, hg, hsame⟩ := exists_same hf
    obtain ⟨hpath, -, hprovider⟩ := same_iff.1 hsame
    rw [hpath, hprovider]
    exact exists_of_mem root hg
  refine ⟨⟨hidentities, hidentities ▸ nodup_eraseDups _, hcovered,
    fun f => find?_of_mem_distinct⟩, ⟨paths_ofFiles root files, nodup_paths root files,
      fun v => eq_ofGroup, hnotLost, fun f hf g _ => ?_⟩,
    fun relay key w v => relay.answer_addContent root⟩
  rw [← virtualPath_eq_iff]
  constructor
  · rintro ⟨v, -, hvf, hvg⟩
    exact hvf.symm.trans hvg
  · intro hsame
    obtain ⟨v, hv, hvf, -⟩ := hnotLost f hf
    exact ⟨v, hv, hvf, hvf.trans hsame⟩

/-- Two links of a file, and another file beside it, all come to one path under a root of slashes. -/
theorem listed_files_are_kept_once_and_joined_under_slashes :
    let file (path link : String) (size : Nat) (p : Provider) : CachedFile :=
      ⟨path, size, none, link, p, 0, .empty⟩
    let w := World.start
      [.having .premiumize [file "a" "first" 3 .premiumize, file "a" "second" 3 .premiumize,
        file "/a" "third" 4 .premiumize], .having .easynews [file "//a" "fourth" 5 .easynews]]
      (.ofStandard .standard) ⟨.memory, default⟩ ⟨[], [], .common⟩ (fun _ => 0)
    let relay : Relay := ⟨⟨0, 0, 0⟩⟩
    let key : Key := .torrent "hash" "magnet"
    ∃ resolutions v, relay.policy.resolve key w = (.ok resolutions, v) ∧
      (Resolution.files resolutions).map (·.link) = ["first", "third", "fourth"] ∧
      ofFiles "//" (Resolution.files resolutions) = [⟨"/a", 3, none, [.premiumize, .easynews]⟩] ∧
      (relay.addContent key "//" w).1 = .ok (ofFiles "//" (Resolution.files resolutions)) := by
  intro file w relay key
  have hresolved : (relay.policy.resolve key w).1.toOption.map (fun resolutions =>
      ((Resolution.files resolutions).map (·.link),
        ofFiles "//" (Resolution.files resolutions))) =
      some (["first", "third", "fourth"], [⟨"/a", 3, none, [.premiumize, .easynews]⟩]) := by
    decide +kernel
  have hok : (relay.addContent key "//" w).1.toOption.isSome = true := by decide +kernel
  -- what is left is not evaluated
  clear_value w
  rcases hresolve : relay.policy.resolve key w with ⟨halt | resolutions, v⟩
  · rw [hresolve] at hresolved
    cases hresolved
  · rw [hresolve] at hresolved
    obtain ⟨hlinks, hcreated⟩ := Prod.mk.inj (Option.some.inj hresolved)
    have hanswer :=
      (listed_files_are_kept_once_and_joined "//" resolutions).2.2 relay key w v hresolve
    refine ⟨resolutions, v, rfl, hlinks, hcreated, ?_⟩
    generalize (relay.addContent key "//" w).1 = answer at hok hanswer ⊢
    cases answer with
    | error halt => cases hok
    | ok created => exact congrArg _ hanswer.2

end LinkRelay
