import LinkRelay.Proofs.Dictionary
import LinkRelay.Proofs.Json.RoundTrip
import LinkRelay.Store.Snapshot
set_option autoImplicit false

/-!
# Reading a snapshot back

A snapshot of a catalog reads as that catalog put right, so a catalog with nothing to put right
reads as itself. The numbers must be such as the written form can hold.
-/

namespace LinkRelay

section Lists

variable {α β γ : Type} {f : α → Option β} {g : β → Option γ} {h : α → γ}

theorem mapM_mapM {l : List α} {ys : List β} (hread : ∀ x ∈ l, ∀ y, f x = some y → g y = some (h x))
    (hwritten : l.mapM f = some ys) : ys.mapM g = some (l.map h) := by
  induction l generalizing ys with
  | nil =>
    cases hwritten
    rfl
  | cons x l ih =>
    rw [List.mapM_cons] at hwritten
    cases hx : f x with
    | none => rw [hx] at hwritten; cases hwritten
    | some y =>
      cases hl : l.mapM f with
      | none => rw [hx, hl] at hwritten; cases hwritten
      | some rest =>
        rw [hx, hl] at hwritten
        cases hwritten
        rw [List.mapM_cons, hread x List.mem_cons_self y hx,
          ih (fun x hx => hread x (List.mem_cons_of_mem _ hx)) hl]
        rfl

theorem forall_mem_of_mapM {p : β → Prop} {l : List α} {ys : List β}
    (hp : ∀ x y, f x = some y → p y) (hwritten : l.mapM f = some ys) : ∀ y ∈ ys, p y := by
  induction l generalizing ys with
  | nil =>
    cases hwritten
    nofun
  | cons x l ih =>
    rw [List.mapM_cons] at hwritten
    cases hx : f x with
    | none => rw [hx] at hwritten; cases hwritten
    | some y =>
      cases hl : l.mapM f with
      | none => rw [hx, hl] at hwritten; cases hwritten
      | some rest =>
        rw [hx, hl] at hwritten
        cases hwritten
        intro z hz
        rcases List.mem_cons.mp hz with rfl | hz
        · exact hp x z hx
        · exact ih hl z hz

theorem isSome_mapM {l : List α} (h : ∀ x ∈ l, (f x).isSome = true) :
    (l.mapM f).isSome = true := by
  induction l with
  | nil => rfl
  | cons x l ih =>
    obtain ⟨y, hy⟩ := Option.isSome_iff_exists.1 (h x List.mem_cons_self)
    obtain ⟨ys, hys⟩ := Option.isSome_iff_exists.1 (ih fun x hx => h x (List.mem_cons_of_mem _ hx))
    rw [List.mapM_cons, hy, hys]
    rfl

end Lists

namespace Json

theorem plainItems_of_forall {items : List Json} (h : ∀ v ∈ items, v.Plain) : PlainItems items := by
  induction items with
  | nil => trivial
  | cons v items ih =>
    exact ⟨h v List.mem_cons_self, ih fun w hw => h w (List.mem_cons_of_mem _ hw)⟩

theorem plain_record {members : List (String × Json)} (h : ∀ m ∈ members, m.2.Plain) :
    (record members).Plain := by
  change PlainMembers (members.map _)
  induction members with
  | nil => trivial
  | cons m members ih =>
    exact ⟨rfl, h m List.mem_cons_self, ih fun w hw => h w (List.mem_cons_of_mem _ hw)⟩

theorem natUpTo?_nat {limit n : Nat} (h : n ≤ limit) : natUpTo? limit (.nat n) = some n := if_pos h

end Json

namespace Time

def Fits (t : Time) : Prop := t < ((lastSecond + 1) * 1000000000 : Nat)

theorem plain_of_toJson? {t : Time} {v : Json} (h : t.toJson? = some v) : v.Plain := by
  match t with
  | .ofNat n =>
    cases h
    exact ⟨rfl, trivial, rfl, trivial, trivial⟩
  | .negSucc n => cases h

theorem ofJson?_of_toJson? {t : Time} {v : Json} (ht : t.Fits) (h : t.toJson? = some v) :
    ofJson? v = some t := by
  cases t with
  | ofNat n =>
    cases h
    have hn : n < (lastSecond + 1) * 1000000000 := Int.ofNat_lt.mp ht
    have hsecs : n / 1000000000 ≤ lastSecond := by omega
    have hnanos : n % 1000000000 < 1000000000 := Nat.mod_lt n (by decide)
    have hread : ofJson? (.record [("secs_since_epoch", .nat (n / 1000000000)),
        ("nanos_since_epoch", .nat (n % 1000000000))]) =
        (Json.u64? (.nat (n / 1000000000))).bind fun secs =>
          (Json.natUpTo? Text.maxU32 (.nat (n % 1000000000))).bind fun nanos =>
            if secs + nanos / 1000000000 ≤ lastSecond then
              some ((secs * 1000000000 + nanos : Nat) : Int) else none := rfl
    have hu64 : n / 1000000000 ≤ Text.maxU64 := Nat.le_trans hsecs (by decide)
    have hu32 : n % 1000000000 ≤ Text.maxU32 := Nat.le_trans (Nat.le_of_lt hnanos) (by decide)
    rw [hread, Json.u64?, Json.natUpTo?_nat hu64, Json.natUpTo?_nat hu32]
    simp only [Option.bind_some]
    rw [Nat.div_eq_of_lt hnanos, Nat.add_zero, if_pos hsecs, Nat.div_add_mod']
    rfl
  | negSucc n => cases h

end Time

namespace Record

/-- A record whose numbers the written form can hold. -/
structure Fits (r : Record) : Prop where
  size : ∀ n ∈ r.size, n ≤ Text.maxU64
  checked : r.lastChecked.Fits

variable {r : Record} {v : Json}

theorem toJson?_eq_some (h : r.toJson? = some v) :
    ∃ checked, r.lastChecked.toJson? = some checked ∧ v = .record
      [("provider", .str r.provider.name), ("state", .str r.state.name), ("last_checked", checked),
       ("link", orNull r.link), ("size", (r.size.map Json.nat).getD .null),
       ("mime_type", orNull r.mimeType), ("remote_path", orNull r.remotePath),
       ("extra_params", paramsToJson r.params)] := by
  rw [toJson?] at h
  cases hchecked : r.lastChecked.toJson? with
  | none => rw [hchecked] at h; cases h
  | some checked =>
    rw [hchecked] at h
    exact ⟨checked, rfl, (Option.some_inj.mp h).symm⟩

theorem plain_orNull (s : Option String) : (orNull s).Plain := by
  cases s <;> trivial

theorem plain_of_toJson? (h : r.toJson? = some v) : v.Plain := by
  obtain ⟨checked, hchecked, rfl⟩ := toJson?_eq_some h
  have hsize : ((r.size.map Json.nat).getD .null).Plain := by
    cases r.size <;> trivial
  have hparams : (paramsToJson r.params).Plain := by
    apply Json.plain_record
    intro m hm
    obtain ⟨p, -, rfl⟩ := List.mem_map.mp hm
    trivial
  exact ⟨rfl, trivial, rfl, trivial, rfl, Time.plain_of_toJson? hchecked, rfl, plain_orNull _, rfl,
    hsize, rfl, plain_orNull _, rfl, plain_orNull _, rfl, hparams, trivial⟩

theorem orNull_text (s : Option String) : Json.Fields.orNull Json.text? (orNull s) = some s := by
  cases s <;> rfl

theorem orNull_size {size : Option Nat} (h : ∀ n ∈ size, n ≤ Text.maxU64) :
    Json.Fields.orNull Json.u64? ((size.map Json.nat).getD .null) = some size := by
  cases size with
  | none => rfl
  | some n =>
    change (Json.natUpTo? Text.maxU64 (.nat n)).map some = _
    rw [Json.natUpTo?_nat (h n rfl)]
    rfl

theorem texts?_paramsToJson (params : Dictionary String) :
    Json.texts? (paramsToJson params) = some params.entries := by
  change ((params.entries.map _).map _).mapM _ = _
  induction params.entries with
  | nil => rfl
  | cons e entries ih =>
    rw [List.map_cons, List.map_cons, List.mapM_cons, ih]
    rfl

theorem ofJson?_of_toJson? (hr : r.Fits) (h : r.toJson? = some v) : ofJson? v = some r := by
  obtain ⟨checked, hchecked, rfl⟩ := toJson?_eq_some h
  have hread : ofJson? (.record
      [("provider", .str r.provider.name), ("state", .str r.state.name), ("last_checked", checked),
       ("link", orNull r.link), ("size", (r.size.map Json.nat).getD .null),
       ("mime_type", orNull r.mimeType), ("remote_path", orNull r.remotePath),
       ("extra_params", paramsToJson r.params)]) =
      (Provider.ofName? r.provider.name).bind fun provider =>
        (FileState.ofName? r.state.name).bind fun state =>
          (Time.ofJson? checked).bind fun lastChecked =>
            (Json.Fields.orNull Json.text? (orNull r.link)).bind fun link =>
              (Json.Fields.orNull Json.u64? ((r.size.map Json.nat).getD .null)).bind fun size =>
                (Json.Fields.orNull Json.text? (orNull r.mimeType)).bind fun mimeType =>
                  (Json.Fields.orNull Json.text? (orNull r.remotePath)).bind fun remotePath =>
                    (Json.texts? (paramsToJson r.params)).bind fun params =>
                      some ⟨provider, state, lastChecked, link, size, mimeType, remotePath,
                        .ofList params⟩ := rfl
  rw [hread, Provider.ofName?_name, FileState.ofName?_name,
    Time.ofJson?_of_toJson? hr.checked hchecked, orNull_text, orNull_size hr.size, orNull_text,
    orNull_text, texts?_paramsToJson]
  simp only [Option.bind_some, Dictionary.ofList_entries]

end Record

namespace Catalog

def Every (p : Record → Prop) (c : Catalog) : Prop := ∀ e ∈ c.entries, ∀ r ∈ e.2, p r

theorem repair_of_every {c : Catalog} (h : c.Every fun r => r.isConsistent = true) :
    c.repair = c := by
  apply Dictionary.eq_of_entries
  have hrecords : ∀ e ∈ c.entries, (e.1, e.2.map Record.demote) = e := by
    intro e he
    have hdemote : e.2.map Record.demote = e.2 := by
      rw [List.map_congr_left fun r hr => show r.demote = id r from if_pos (h e he r hr),
        List.map_id]
    rw [hdemote]
  exact (List.map_congr_left hrecords).trans (List.map_id _)

/-- With all clocks past 1970, whatever the store holds can be written. -/
def Timely : Catalog → Prop := Catalog.Every fun r => 0 ≤ r.lastChecked

end Catalog

namespace Snapshot

variable {c : Catalog} {e : String × List Record} {m : String × Json} {v : Json} {bytes : Bytes}

theorem entryToJson?_eq_some (h : entryToJson? e = some m) :
    ∃ items, e.2.mapM Record.toJson? = some items ∧ m = (e.1, .list items) := by
  rw [entryToJson?] at h
  cases hitems : e.2.mapM Record.toJson? with
  | none => rw [hitems] at h; cases h
  | some items =>
    rw [hitems] at h
    exact ⟨items, rfl, (Option.some_inj.mp h).symm⟩

theorem entryOfJson?_of_toJson? (he : ∀ r ∈ e.2, r.Fits) (h : entryToJson? e = some m) :
    entryOfJson? (some m.1, m.2) = some e := by
  obtain ⟨items, hitems, rfl⟩ := entryToJson?_eq_some h
  have hread : items.mapM Record.ofJson? = some (e.2.map id) :=
    mapM_mapM (fun r hr v hv => Record.ofJson?_of_toJson? (he r hr) hv) hitems
  have hentry : entryOfJson? (some e.1, .list items) =
      (items.mapM Record.ofJson?).bind fun records => some (e.1, records) := rfl
  rw [hentry, hread, List.map_id]
  rfl

theorem plain_of_entries {entries : List (String × List Record)} {members : List (String × Json)}
    (h : entries.mapM entryToJson? = some members) : (Json.record members).Plain := by
  apply Json.plain_record
  refine forall_mem_of_mapM (fun e m hm => ?_) h
  obtain ⟨items, hitems, rfl⟩ := entryToJson?_eq_some hm
  have hplain : ∀ v ∈ items, v.Plain :=
    forall_mem_of_mapM (fun r v hv => Record.plain_of_toJson? hv) hitems
  exact Json.plainItems_of_forall hplain

/-- A text lists these records for these paths, in this order. -/
def Lists (content : Bytes) (listed : List (String × List Record)) : Prop :=
  ∃ members, Json.ofBytes? content = some (.object members) ∧
    members.mapM entryOfJson? = some listed

theorem ofJson?_eq_some_iff : ofJson? v = some c ↔
    ∃ members listed, v = .object members ∧ members.mapM entryOfJson? = some listed ∧
      c = .ofList listed := by
  constructor
  · intro h
    cases v with
    | object members =>
      rw [ofJson?, Option.map_eq_some_iff] at h
      obtain ⟨listed, hlisted, rfl⟩ := h
      exact ⟨members, listed, rfl, hlisted, rfl⟩
    | _ => cases h
  · rintro ⟨members, listed, rfl, hlisted, rfl⟩
    rw [ofJson?, hlisted, Option.map_some]

theorem read?_eq_some_iff : read? bytes = some c ↔
    ∃ listed, Lists bytes listed ∧ c = Catalog.repair (.ofList listed) := by
  rw [read?, Option.map_eq_some_iff]
  constructor
  · rintro ⟨c, h, rfl⟩
    obtain ⟨v, hjson, h⟩ := Option.bind_eq_some_iff.1 h
    obtain ⟨members, listed, rfl, hlisted, rfl⟩ := ofJson?_eq_some_iff.1 h
    exact ⟨listed, ⟨members, hjson, hlisted⟩, rfl⟩
  · rintro ⟨listed, ⟨members, hjson, hlisted⟩, rfl⟩
    refine ⟨.ofList listed, ?_, rfl⟩
    rw [hjson, Option.bind_some]
    exact ofJson?_eq_some_iff.2 ⟨members, listed, rfl, hlisted, rfl⟩

theorem lists_of_entries {entries : List (String × List Record)} {members : List (String × Json)}
    (hfits : ∀ e ∈ entries, ∀ r ∈ e.2, r.Fits) (h : entries.mapM entryToJson? = some members) :
    Lists (Utf8.encode (Json.record members).toPretty) entries := by
  have hread : (members.map fun m => (some m.1, m.2)).mapM entryOfJson? =
      some (entries.map id) := by
    rw [List.mapM_map]
    exact mapM_mapM (fun e he m hm => entryOfJson?_of_toJson? (hfits e he) hm) h
  rw [List.map_id] at hread
  exact ⟨_, Json.ofBytes?_toPretty _ (plain_of_entries h), hread⟩

theorem read?_of_entries {entries : List (String × List Record)} {members : List (String × Json)}
    (hfits : ∀ e ∈ entries, ∀ r ∈ e.2, r.Fits) (h : entries.mapM entryToJson? = some members) :
    read? (Utf8.encode (Json.record members).toPretty) =
      some (Catalog.repair (.ofList entries)) :=
  read?_eq_some_iff.2 ⟨entries, lists_of_entries hfits h, rfl⟩

theorem read?_of_write? (hc : c.Every Record.Fits) (h : write? c = some bytes) :
    read? bytes = some c.repair := by
  rw [write?, toJson?, Option.map_map, Option.map_eq_some_iff] at h
  obtain ⟨members, hmembers, rfl⟩ := h
  exact (read?_of_entries hc hmembers).trans (by rw [Dictionary.ofList_entries])

theorem toJson?_isSome {r : Record} (h : 0 ≤ r.lastChecked) : r.toJson?.isSome = true := by
  obtain ⟨n, hn⟩ := Int.eq_ofNat_of_zero_le h
  rw [Record.toJson?, hn]
  rfl

theorem write?_isSome {c : Catalog} (h : c.Timely) : (write? c).isSome = true := by
  have hentries : (c.entries.mapM entryToJson?).isSome = true := by
    refine isSome_mapM fun e he => ?_
    have hrecords : (e.2.mapM Record.toJson?).isSome = true :=
      isSome_mapM fun r hr => toJson?_isSome (h e he r hr)
    obtain ⟨items, hitems⟩ := Option.isSome_iff_exists.1 hrecords
    rw [entryToJson?, hitems]
    rfl
  rw [write?, toJson?, Option.isSome_map, Option.isSome_map, hentries]

end Snapshot

end LinkRelay
