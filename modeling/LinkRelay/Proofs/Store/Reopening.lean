import LinkRelay.Proofs.Store.Backend
import LinkRelay.Proofs.Store.Snapshot
set_option autoImplicit false

/-!
# Opening a file that was written

A catalog is kept as an object whose members may stand in any order. Whichever text of a catalog a
file holds, opening the file comes to the catalog put right: the records that claim a file which
they cannot serve are demoted, and all else is as it was.
-/

namespace LinkRelay

def Record.Reopened (r r' : Record) : Prop :=
  if r.state = .cached ∧ (r.link = none ∨ r.size = none) then
    r' = { r with state := .failed .provider, link := none, lastChecked := 0 }
  else r' = r

namespace Record

variable {r : Record}

theorem isConsistent_eq_false_iff :
    r.isConsistent = false ↔ r.state = .cached ∧ (r.link = none ∨ r.size = none) := by
  rw [isConsistent, decide_eq_false_iff_not, not_or, not_not, not_and_or,
    Option.not_isSome_iff_eq_none, Option.not_isSome_iff_eq_none]

theorem reopened_demote (r : Record) : r.Reopened r.demote := by
  rw [Reopened, demote]
  by_cases h : r.isConsistent = true
  · rw [if_pos h, if_neg fun hcached => ?_]
    rw [isConsistent_eq_false_iff.2 hcached] at h
    cases h
  · rw [if_neg h, if_pos (isConsistent_eq_false_iff.1 (Bool.eq_false_iff.2 h))]

theorem isConsistent_demote (r : Record) : r.demote.isConsistent = true := by
  rw [demote]
  split
  · assumption
  · rfl

theorem Fits.demote (h : r.Fits) : r.demote.Fits := by
  rw [Record.demote]
  split
  · exact h
  · exact ⟨h.size, show (0 : Int) < _ by decide⟩

theorem demote_timely (h : 0 ≤ r.lastChecked) : 0 ≤ r.demote.lastChecked := by
  rw [demote]
  split
  · exact h
  · exact le_refl _

end Record

namespace Catalog

variable {p q : Record → Prop} {c : Catalog}

theorem Every.repair (h : c.Every p) (hp : ∀ r, p r → q r.demote) : c.repair.Every q := by
  intro e he r hr
  obtain ⟨e, hmem, rfl⟩ := List.mem_map.1 he
  obtain ⟨r, hold, rfl⟩ := List.mem_map.1 hr
  exact hp r (h e hmem r hold)

theorem keys_repair (c : Catalog) : c.repair.keys = c.keys := List.map_map

theorem reopened_repair (c : Catalog) (path : String) :
    List.Forall₂ Record.Reopened (c.records path) (c.repair.records path) := by
  have hrecords : c.repair.records path = (c.records path).map Record.demote := by
    rw [records, records, repair, Dictionary.get?_map]
    cases c.get? path <;> rfl
  rw [hrecords, List.forall₂_map_right_iff]
  exact List.forall₂_same.2 fun r _ => r.reopened_demote

end Catalog

namespace Snapshot

/-- The texts of a catalog: its paths may stand in any order. -/
inductive Shows (c : Catalog) : Bytes → Prop where
  | members {entries : List (String × List Record)} {members : List (String × Json)}
      (horder : entries.Perm c.entries) (hmembers : entries.mapM entryToJson? = some members) :
      Shows c (Utf8.encode (Json.record members).toPretty)

variable {c : Catalog} {content : Bytes}

theorem shows_of_write? (h : write? c = some content) : Shows c content := by
  rw [write?, toJson?, Option.map_map, Option.map_eq_some_iff] at h
  obtain ⟨members, hmembers, rfl⟩ := h
  exact .members (.refl _) hmembers

theorem Shows.read? (h : Shows c content) (hfits : c.Every Record.Fits) :
    read? content = some c.repair := by
  cases h with
  | members horder hmembers =>
    rw [read?_of_entries (fun e he => hfits e (horder.mem_iff.1 he)) hmembers,
      Dictionary.ofList_of_perm horder]

end Snapshot

theorem Backend.opened_of_read? {d : Disk} {content : Bytes} {c : Catalog}
    (hread : d.read = .ok (some content)) (h : Snapshot.read? content = some c) :
    Backend.opened d = .ok ⟨c, some d⟩ := by
  rw [Backend.opened, Backend.load, hread]
  simp only [h]
  rfl

/-- A disk that can be written opens as a catalog `c'` once a catalog `c` was written to it, in
    whichever order the text lists the paths. -/
structure Catalog.ReopensAs (c c' : Catalog) : Prop where
  shown : ∃ content, Snapshot.write? c = some content ∧ Snapshot.Shows c content
  opened : ∀ content, Snapshot.Shows c content → ∀ d : Disk, d.failingStep? = none →
    ∃ after, d.write content = (.ok (), after) ∧ Backend.opened after = .ok ⟨c', some after⟩
  persisted : ∀ d : Disk, d.failingStep? = none → ∃ after,
    (Backend.mk c (some d)).persist = (.ok (), ⟨c, some after⟩) ∧
      Backend.opened after = .ok ⟨c', some after⟩

theorem Catalog.reopensAs_repair {c : Catalog} (hfits : c.Every Record.Fits) (htimely : c.Timely) :
    c.ReopensAs c.repair := by
  obtain ⟨content, hcontent⟩ := Option.isSome_iff_exists.1 (Snapshot.write?_isSome htimely)
  have hopened : ∀ content, Snapshot.Shows c content → ∀ d : Disk, d.failingStep? = none →
      ∃ after, d.write content = (.ok (), after) ∧
        Backend.opened after = .ok ⟨c.repair, some after⟩ := by
    intro content hshows d hd
    have hok := d.write_isOk content
    rw [hd] at hok
    rcases hwrite : d.write content with ⟨answer, after⟩
    rw [hwrite] at hok
    cases answer with
    | error fault => cases hok
    | ok _ =>
      exact ⟨after, rfl, Backend.opened_of_read? (Disk.read_of_write_ok hwrite) (hshows.read? hfits)⟩
  refine ⟨⟨content, hcontent, Snapshot.shows_of_write? hcontent⟩, hopened, fun d hd => ?_⟩
  obtain ⟨after, hwrite, hafter⟩ := hopened content (Snapshot.shows_of_write? hcontent) d hd
  refine ⟨after, ?_, hafter⟩
  simp only [Backend.persist, hcontent, hwrite]

/-- Every catalog that has a written form comes back from a file with the same paths, and on each
    path with the same records in the same order, of which those that cannot be served are demoted.
    A catalog without such records comes back as it is, and so does one that came back before. -/
theorem catalog_reopens_with_unservable_records_demoted (c : Catalog) (hfits : c.Every Record.Fits)
    (htimely : c.Timely) :
    c.ReopensAs c.repair ∧ c.repair.keys = c.keys ∧
      (∀ path, List.Forall₂ Record.Reopened (c.records path) (c.repair.records path)) ∧
      (c.Every (fun r => r.isConsistent = true) → c.ReopensAs c) ∧
      c.repair.ReopensAs c.repair := by
  have honce : c.ReopensAs c.repair := Catalog.reopensAs_repair hfits htimely
  have hconsistent : c.repair.Every fun r => r.isConsistent = true :=
    hfits.repair fun r _ => r.isConsistent_demote
  have htwice : c.repair.ReopensAs c.repair.repair :=
    Catalog.reopensAs_repair (hfits.repair fun _ => Record.Fits.demote)
      (Catalog.Every.repair htimely fun _ h => Record.demote_timely h)
  rw [Catalog.repair_of_every hconsistent] at htwice
  refine ⟨honce, c.keys_repair, c.reopened_repair, fun h => ?_, htwice⟩
  rw [Catalog.repair_of_every h] at honce
  exact honce

/-- A path with quotes and a line break in it that has a record without a link, and a path that has
    no record. -/
theorem catalog_reopens_with_unservable_records_demoted_of_two :
    let kept : Record := ⟨.easynews, .failed .network, 1700000000000000001, none,
      some Text.maxU64, some "video/mp4", none, ⟨[("größe\"", "😀\\")], by decide⟩⟩
    let unservable : Record := ⟨.premiumize, .cached, 5, none, some 7, none, some "a.mkv", .empty⟩
    let c : Catalog := ⟨[("/a \"b\"\n", [unservable, kept]), ("/b", [])], by decide⟩
    c.Every Record.Fits ∧ c.Timely ∧ c.ReopensAs c.repair ∧ c.repair.keys = ["/a \"b\"\n", "/b"] ∧
      c.repair.records "/a \"b\"\n" =
        [{ unservable with state := .failed .provider, lastChecked := 0 }, kept] ∧
      c.repair.ReopensAs c.repair := by
  intro kept unservable c
  have hfits : c.Every Record.Fits := by
    have hkept : kept.Fits :=
      ⟨fun n hn => (Option.some_inj.1 hn).symm.le, show (_ : Int) < _ by decide⟩
    have hunservable : unservable.Fits :=
      ⟨fun n hn => Option.some_inj.1 hn ▸ by decide, show (_ : Int) < _ by decide⟩
    simp only [Catalog.Every, c, List.forall_mem_cons]
    refine ⟨⟨hunservable, hkept, ?_⟩, ?_, ?_⟩ <;> exact List.forall_mem_nil _
  have htimely : c.Timely := by
    simp only [Catalog.Timely, Catalog.Every, c, List.forall_mem_cons]
    refine ⟨⟨by decide, by decide, ?_⟩, ?_, ?_⟩ <;> exact List.forall_mem_nil _
  obtain ⟨honce, hkeys, -, -, htwice⟩ :=
    catalog_reopens_with_unservable_records_demoted c hfits htimely
  exact ⟨hfits, htimely, honce, hkeys, rfl, htwice⟩

end LinkRelay
