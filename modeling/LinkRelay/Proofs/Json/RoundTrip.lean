import LinkRelay.Proofs.Json.Atoms
import LinkRelay.Proofs.Text.Utf8
set_option autoImplicit false

/-!
# Reading printed values back

The reader gives back what the printer was given, for values whose texts are text and whose numbers
are whole and not negative.
-/

namespace LinkRelay.Json

mutual

/-- Values that are written in the way in which they are read. -/
def Plain : Json → Prop
  | .null | .bool _ | .int (.ofNat _) | .text (some _) => True
  | .int (.negSucc _) | .real _ | .text none => False
  | .list items => PlainItems items
  | .object members => PlainMembers members

def PlainItems : List Json → Prop
  | [] => True
  | item :: items => item.Plain ∧ PlainItems items

def PlainMembers : List (Option String × Json) → Prop
  | [] => True
  | (name, value) :: members => name.isSome ∧ value.Plain ∧ PlainMembers members

end

mutual

/-- The fuel that reading a value needs. -/
def weight : Json → Nat
  | .list items => 1 + weightItems items
  | .object members => 1 + weightMembers members
  | _ => 1

def weightItems : List Json → Nat
  | [] => 0
  | item :: items => 1 + weight item + weightItems items

def weightMembers : List (Option String × Json) → Nat
  | [] => 0
  | (_, value) :: members => 1 + weight value + weightMembers members

end

mutual

theorem weight_le (depth : Nat) : ∀ v : Json, v.weight ≤ 2 * (pretty depth v).length + 1
  | .null | .bool _ | .int _ | .real _ | .text _ => by
    simp only [weight]
    omega
  | .list [] => by
    simp only [weight, weightItems]
    omega
  | .list (item :: items) => by
    have hitem := weight_le (depth + 1) item
    have hitems := weightItems_le (depth + 1) items
    simp only [weight, weightItems, pretty, List.length_cons, List.length_append]
    omega
  | .object [] => by
    simp only [weight, weightMembers]
    omega
  | .object ((name, value) :: members) => by
    have hvalue := weight_le (depth + 1) value
    have hmembers := weightMembers_le (depth + 1) members
    simp only [weight, weightMembers, pretty, List.length_cons, List.length_append]
    omega

theorem weightItems_le (depth : Nat) :
    ∀ items : List Json, weightItems items ≤ 2 * (prettyItems depth items).length
  | [] => Nat.zero_le _
  | item :: items => by
    have hitem := weight_le depth item
    have hitems := weightItems_le depth items
    simp only [weightItems, prettyItems, List.length_cons, List.length_append]
    omega

theorem weightMembers_le (depth : Nat) :
    ∀ members : List (Option String × Json),
      weightMembers members ≤ 2 * (prettyMembers depth members).length
  | [] => Nat.zero_le _
  | (name, value) :: members => by
    have hvalue := weight_le depth value
    have hmembers := weightMembers_le depth members
    simp only [weightMembers, prettyMembers, List.length_cons, List.length_append]
    omega

end

section Gaps

theorem skipGap_line (depth : Nat) (s : List Char) :
    skipGap (chars (line depth ++ s)) = skipGap (chars s) := by
  rw [chars_append, skipGap, List.dropWhile_append_of_pos]
  · rfl
  · intro c hc
    obtain ⟨x, hx, rfl⟩ := List.mem_map.mp hc
    rcases List.mem_cons.mp hx with rfl | hx
    · rfl
    · rw [List.eq_of_mem_replicate hx]
      rfl

theorem skipGap_cons {c : Char} (hc : isGap (some c) = false) (s : List Char) :
    skipGap (chars (c :: s)) = chars (c :: s) := by
  rw [chars_cons, skipGap, List.dropWhile_cons_of_neg]
  rw [hc]
  exact Bool.false_ne_true

theorem value?_line (depth fuel : Nat) (s : List Char) :
    value? fuel (chars (line depth ++ s)) = value? fuel (chars s) := by
  cases fuel with
  | zero => rfl
  | succ fuel => rw [value?, value?, skipGap_line]

theorem items?_line (depth fuel : Nat) (s : List Char) :
    items? fuel (chars (line depth ++ s)) = items? fuel (chars s) := by
  cases fuel with
  | zero => rfl
  | succ fuel => rw [items?, items?, value?_line]

theorem members?_line (depth fuel : Nat) (s : List Char) :
    members? fuel (chars (line depth ++ s)) = members? fuel (chars s) := by
  cases fuel with
  | zero => rfl
  | succ fuel => rw [members?, members?, skipGap_line]

theorem ne_of_isDigit {c x : Char} (hc : c.isDigit = true) (hx : x.isDigit = false) : c ≠ x := by
  rintro rfl
  exact Bool.false_ne_true (hx.symm.trans hc)

theorem isGap_digit {c : Char} (hc : c.isDigit = true) : isGap (some c) = false := by
  have hne {x : Char} (hx : x.isDigit = false) : (c == x) = false :=
    beq_false_of_ne (ne_of_isDigit hc hx)
  rw [isGap, hne rfl, hne rfl, hne rfl, hne rfl]
  rfl

theorem value?_digit {c : Char} (hc : c.isDigit = true) (fuel : Nat) (s : List Char) :
    value? (fuel + 1) (chars (c :: s)) = number? (chars (c :: s)) := by
  rw [value?, skipGap_cons (isGap_digit hc), chars_cons]
  split
  all_goals first | rfl | skip
  all_goals
    rename_i heq
    cases heq
    exact absurd hc (by decide)

theorem value?_quote (fuel : Nat) (s : List Char) : value? (fuel + 1) (chars ('"' :: s)) =
    (string? (chars s)).map fun (t, after) => (.text t, after) := rfl

theorem value?_bracket (fuel : Nat) (s : List Char) : value? (fuel + 1) (chars ('[' :: s)) =
    match skipGap (chars s) with
    | some ']' :: after => some (.list [], after)
    | _ => (items? fuel (chars s)).map fun (items, after) => (.list items, after) := rfl

theorem value?_brace (fuel : Nat) (s : List Char) : value? (fuel + 1) (chars ('\x7b' :: s)) =
    match skipGap (chars s) with
    | some '\x7d' :: after => some (.object [], after)
    | _ => (members? fuel (chars s)).map fun (members, after) => (.object members, after) := rfl

theorem value?_space (fuel : Nat) (s : List Char) :
    value? fuel (chars (' ' :: s)) = value? fuel (chars s) := by
  cases fuel <;> rfl

theorem items?_last {fuel closing : Nat} {item : Json} {s rest : List Char}
    (h : value? fuel (chars s) = some (item, chars (line closing ++ ']' :: rest))) :
    items? (fuel + 1) (chars s) = some ([item], chars rest) := by
  rw [items?, h, Option.bind_eq_bind, Option.bind_some]
  dsimp only
  rw [skipGap_line]
  rfl

theorem items?_next {fuel : Nat} {item : Json} {items : List Json} {s t rest : List Char}
    (h : value? fuel (chars s) = some (item, chars (',' :: t)))
    (hnext : items? fuel (chars t) = some (items, chars rest)) :
    items? (fuel + 1) (chars s) = some (item :: items, chars rest) := by
  rw [items?, h, Option.bind_eq_bind, Option.bind_some]
  dsimp only
  rw [skipGap_cons rfl]
  change (items? fuel (chars t)).bind (fun (items, after) => some (item :: items, after)) = _
  rw [hnext]
  rfl

def membersAfter (fuel : Nat) (name : Option String) (value : Json) (rest : Input) :
    Option (List (Option String × Json) × Input) :=
  match skipGap rest with
  | some ',' :: rest =>
    (members? fuel rest).bind fun (members, after) => some ((name, value) :: members, after)
  | some '\x7d' :: after => some ([(name, value)], after)
  | _ => none

theorem members?_quote {fuel : Nat} {name : Option String} {value : Json} {s t : List Char}
    {after : Input} (hname : string? (chars s) = some (name, chars (':' :: ' ' :: t)))
    (hvalue : value? fuel (chars t) = some (value, after)) :
    members? (fuel + 1) (chars ('"' :: s)) = membersAfter fuel name value after := by
  change (string? (chars s)).bind _ = _
  rw [hname, Option.bind_some]
  change (value? fuel (chars (' ' :: t))).bind _ = _
  rw [value?_space, hvalue]
  rfl

theorem membersAfter_comma {fuel : Nat} {name : Option String} {value : Json}
    {members : List (Option String × Json)} {t : List Char} {after : Input}
    (h : members? fuel (chars t) = some (members, after)) :
    membersAfter fuel name value (chars (',' :: t)) = some ((name, value) :: members, after) := by
  change (members? fuel (chars t)).bind _ = _
  rw [h]
  rfl

theorem membersAfter_brace (fuel closing : Nat) (name : Option String) (value : Json)
    (rest : List Char) :
    membersAfter fuel name value (chars (line closing ++ '\x7d' :: rest)) =
      some ([(name, value)], chars rest) := by
  rw [membersAfter, skipGap_line]
  rfl

theorem pretty_nat (depth n : Nat) : pretty depth (.int (.ofNat n)) = Nat.toDigits 10 n :=
  Nat.toList_repr

theorem pretty_eq_cons (depth : Nat) {v : Json} (hv : v.Plain) :
    ∃ c s, pretty depth v = c :: s ∧ isGap (some c) = false ∧ c ≠ ']' := by
  cases v with
  | null => exact ⟨_, _, rfl, rfl, by decide⟩
  | bool b => cases b <;> exact ⟨_, _, rfl, rfl, by decide⟩
  | int i =>
    cases i with
    | ofNat n =>
      obtain ⟨c, s, hc, hdigit⟩ := toDigits_eq_cons n
      exact ⟨c, s, (pretty_nat depth n).trans hc, isGap_digit hdigit, ne_of_isDigit hdigit rfl⟩
    | negSucc n => cases hv
  | real literal => cases hv
  | text t => exact ⟨_, _, rfl, rfl, by decide⟩
  | list items => cases items <;> exact ⟨_, _, rfl, rfl, by decide⟩
  | object members => cases members <;> exact ⟨_, _, rfl, rfl, by decide⟩

theorem skipGap_pretty (depth : Nat) {v : Json} (hv : v.Plain) (s : List Char) :
    ∃ c t, skipGap (chars (pretty depth v ++ s)) = some c :: t ∧ c ≠ ']' := by
  obtain ⟨c, t, hpretty, hgap, hc⟩ := pretty_eq_cons depth hv
  exact ⟨c, chars (t ++ s), by rw [hpretty, List.cons_append, skipGap_cons hgap, chars_cons], hc⟩

end Gaps

theorem ends_cons {c : Char} (hc : c = ',' ∨ c = '\n') (s : List Char) : Ends (c :: s) := by
  intro x hx
  rwa [← Option.some_inj.mp hx]

theorem ends_items (depth closing : Nat) (items : List Json) (s : List Char) :
    Ends (prettyItems depth items ++ (line closing ++ s)) := by
  cases items with
  | nil => exact ends_cons (.inr rfl) _
  | cons item items => exact ends_cons (.inl rfl) _

theorem ends_members (depth closing : Nat) (members : List (Option String × Json))
    (s : List Char) : Ends (prettyMembers depth members ++ (line closing ++ s)) := by
  cases members with
  | nil => exact ends_cons (.inr rfl) _
  | cons member members => exact ends_cons (.inl rfl) _

section Layout

variable (depth : Nat) (item value : Json) (name : Option String) (rest : List Char)

theorem pretty_list (items : List Json) : pretty depth (.list (item :: items)) ++ rest =
    '[' :: (line (depth + 1) ++ (pretty (depth + 1) item ++
      (prettyItems (depth + 1) items ++ (line depth ++ ']' :: rest)))) := by
  simp only [pretty, List.cons_append, List.append_assoc, List.nil_append]

theorem prettyItems_cons (items : List Json) : prettyItems depth (item :: items) ++ rest =
    ',' :: (line depth ++ (pretty depth item ++ (prettyItems depth items ++ rest))) := by
  simp only [prettyItems, List.cons_append, List.append_assoc]

def member (rest : List Char) : List Char :=
  quoteName name ++ ':' :: ' ' :: (pretty depth value ++ rest)

theorem pretty_object (members : List (Option String × Json)) :
    pretty depth (.object ((name, value) :: members)) ++ rest =
      '\x7b' :: (line (depth + 1) ++ member (depth + 1) value name
        (prettyMembers (depth + 1) members ++ (line depth ++ '\x7d' :: rest))) := by
  simp only [pretty, member, List.cons_append, List.append_assoc, List.nil_append]

theorem prettyMembers_cons (members : List (Option String × Json)) :
    prettyMembers depth ((name, value) :: members) ++ rest =
      ',' :: (line depth ++ member depth value name (prettyMembers depth members ++ rest)) := by
  simp only [prettyMembers, member, List.cons_append, List.append_assoc, List.nil_append]

end Layout

theorem string?_member {name : Option String} (hname : name.isSome) (depth : Nat) (value : Json)
    (rest : List Char) : ∃ s, member depth value name rest = '"' :: s ∧
      string? (chars s) = some (name, chars (':' :: ' ' :: (pretty depth value ++ rest))) := by
  obtain ⟨text, rfl⟩ := Option.isSome_iff_exists.mp hname
  refine ⟨text.toList.flatMap quoteChar ++ '"' :: ':' :: ' ' :: (pretty depth value ++ rest), ?_, ?_⟩
  · simp only [member, quoteName, quote, Option.getD_some, List.cons_append, List.append_assoc,
      List.nil_append]
  · exact string?_quote text _

mutual

theorem value?_pretty (fuel depth : Nat) (v : Json) (rest : List Char) (hv : v.Plain)
    (hfuel : v.weight ≤ fuel) (hrest : Ends rest) :
    value? fuel (chars (pretty depth v ++ rest)) = some (v, chars rest) := by
  cases fuel with
  | zero => cases v <;> simp [weight] at hfuel
  | succ fuel =>
    match v with
    | .null => rfl
    | .bool true => rfl
    | .bool false => rfl
    | .int (.ofNat n) =>
      have hnumber := number?_toDigits n hrest
      obtain ⟨c, s, hc, hdigit⟩ := toDigits_eq_cons n
      rw [hc] at hnumber
      rw [pretty_nat, hc, List.cons_append, value?_digit hdigit]
      exact hnumber
    | .text (some t) =>
      have hstring := string?_quote t rest
      have hlayout : pretty depth (.text (some t)) ++ rest =
          '"' :: (t.toList.flatMap quoteChar ++ '"' :: rest) := by
        simp only [pretty, atom, quoteName, quote, Option.getD_some, List.cons_append,
          List.append_assoc, List.nil_append]
      rw [hlayout, value?_quote, hstring]
      rfl
    | .list [] => rfl
    | .list (item :: items) =>
      obtain ⟨hitem, hitems⟩ := hv
      have hread := items?_pretty fuel (depth + 1) depth item items rest hitem hitems
        (by simp only [weight, weightItems] at hfuel; omega)
      obtain ⟨c, s, hhead, hc⟩ := skipGap_pretty (depth + 1) hitem
        (prettyItems (depth + 1) items ++ (line depth ++ ']' :: rest))
      rw [pretty_list, value?_bracket, items?_line, hread, skipGap_line, hhead]
      split
      · rename_i heq
        cases heq
        exact absurd rfl hc
      · rfl
    | .object [] => rfl
    | .object ((name, value) :: members) =>
      obtain ⟨hname, hvalue, hmembers⟩ := hv
      have hread := members?_pretty fuel (depth + 1) depth name value members rest hname
        hvalue hmembers (by simp only [weight, weightMembers] at hfuel; omega)
      obtain ⟨s, hmember, -⟩ := string?_member hname (depth + 1) value
        (prettyMembers (depth + 1) members ++ (line depth ++ '\x7d' :: rest))
      rw [pretty_object, value?_brace, members?_line, hread, skipGap_line, hmember,
        skipGap_cons rfl, chars_cons]
      rfl
termination_by fuel

theorem items?_pretty (fuel depth closing : Nat) (item : Json) (items : List Json)
    (rest : List Char) (hitem : item.Plain) (hitems : PlainItems items)
    (hfuel : 1 + item.weight + weightItems items ≤ fuel) :
    items? fuel (chars (pretty depth item ++
      (prettyItems depth items ++ (line closing ++ ']' :: rest)))) =
        some (item :: items, chars rest) := by
  cases fuel with
  | zero => omega
  | succ fuel =>
    have hvalue := value?_pretty fuel depth item
      (prettyItems depth items ++ (line closing ++ ']' :: rest)) hitem (by omega)
      (ends_items depth closing items _)
    match items with
    | [] => exact items?_last hvalue
    | next :: items =>
      obtain ⟨hnext, hitems⟩ := hitems
      have hread := items?_pretty fuel depth closing next items rest hnext hitems
        (by simp only [weightItems] at hfuel; omega)
      rw [prettyItems_cons] at hvalue
      rw [← items?_line depth] at hread
      rw [prettyItems_cons]
      exact items?_next hvalue hread
termination_by fuel

theorem members?_pretty (fuel depth closing : Nat) (name : Option String) (value : Json)
    (members : List (Option String × Json)) (rest : List Char) (hname : name.isSome)
    (hvalue : value.Plain) (hmembers : PlainMembers members)
    (hfuel : 1 + value.weight + weightMembers members ≤ fuel) :
    members? fuel (chars (member depth value name
      (prettyMembers depth members ++ (line closing ++ '\x7d' :: rest)))) =
        some ((name, value) :: members, chars rest) := by
  cases fuel with
  | zero => omega
  | succ fuel =>
    obtain ⟨s, hmember, hstring⟩ := string?_member hname depth value
      (prettyMembers depth members ++ (line closing ++ '\x7d' :: rest))
    have hread := value?_pretty fuel depth value
      (prettyMembers depth members ++ (line closing ++ '\x7d' :: rest)) hvalue (by omega)
      (ends_members depth closing members _)
    rw [hmember, members?_quote hstring hread]
    match members with
    | [] => exact membersAfter_brace fuel closing name value rest
    | (next, nextValue) :: members =>
      obtain ⟨hnext, hnextValue, hmembers⟩ := hmembers
      have hrest := members?_pretty fuel depth closing next nextValue members rest hnext
        hnextValue hmembers (by simp only [weightMembers] at hfuel; omega)
      rw [← members?_line depth] at hrest
      rw [prettyMembers_cons]
      exact membersAfter_comma hrest
termination_by fuel

end

theorem read?_pretty (v : Json) (hv : v.Plain) : read? (chars (pretty 0 v)) = some v := by
  have hvalue : value? (2 * (chars (pretty 0 v)).length + 2) (chars (pretty 0 v ++ [])) =
      some (v, chars []) := by
    refine value?_pretty _ 0 v [] hv ?_ nofun
    have := weight_le 0 v
    rw [chars, List.length_map]
    omega
  rw [List.append_nil] at hvalue
  rw [read?, hvalue]
  rfl

theorem ofBytes?_toPretty (v : Json) (hv : v.Plain) :
    ofBytes? (Utf8.encode v.toPretty) = some v := by
  rw [ofBytes?, Utf8.scan_encode, toPretty, String.toList_ofList]
  exact read?_pretty v hv

end LinkRelay.Json
