import LinkRelay.Http.Exchange
import LinkRelay.Proofs.Text.Boundary
set_option autoImplicit false

/-!
# Texts of failed responses

A response that is no success becomes a failure of its status, which keeps the start of the
response's text. A long text is cut at the last boundary within the limit, so no character is.
-/

namespace LinkRelay

theorem Failure.ofStatus_eq (code : Nat) (endpoint body : String) :
    ∃ cls, ofStatus code endpoint body = .status cls code endpoint body ∧
      (cls = .client ↔ 400 ≤ code ∧ code < 500) ∧ (cls = .server ↔ 500 ≤ code ∧ code < 600) := by
  unfold ofStatus
  split
  · exact ⟨.client, rfl, by simpa, by simp; omega⟩
  · split
    · exact ⟨.server, rfl, by simp; omega, by simpa⟩
    · exact ⟨.unexpected, rfl, by simp; omega, by simp; omega⟩

namespace Http

/-- What is kept of a text: all of it, or what stands before the place at which a walk back from
    the limit ends. -/
inductive Cut (limit : Nat) (text : String) : String → Prop
  | whole (h : (Utf8.encode text).length ≤ limit) : Cut limit text text
  | before {cut : Nat} {kept : String} (h : limit < (Utf8.encode text).length)
    (hwalk : Utf8.walkBack? (Utf8.encode text) limit = some cut) (hsteps : limit ≤ cut + 3)
    (hboundary : Utf8.isBoundary (Utf8.encode text) cut = true)
    (hkept : Utf8.decode? ((Utf8.encode text).take cut) = some kept) : Cut limit text kept

theorem cut_errorBody (text : String) : Cut maxErrorBody text (cutErrorBody text) := by
  unfold cutErrorBody
  dsimp only
  split
  next hfits => exact .whole hfits
  next hlong =>
    have hwalk := Utf8.walkBack?_boundaryUpTo (Utf8.encode text) maxErrorBody
    generalize Utf8.boundaryUpTo (Utf8.encode text) maxErrorBody = cut at hwalk
    obtain ⟨-, hboundary, hlast⟩ := Utf8.walkBack?_eq_some hwalk
    -- the walk stops no earlier than at the boundary that is near
    have hwithin : maxErrorBody ≤ (Utf8.encodeChars text.toList).length := Nat.le_of_not_le hlong
    obtain ⟨near, hnear, hthree, hnearBoundary⟩ := Utf8.exists_boundary hwithin
    have hsteps : maxErrorBody ≤ cut + 3 := by
      have := hlast near hnearBoundary hnear
      omega
    obtain ⟨kept, -, htake, -⟩ := Utf8.exists_start hboundary
    rw [htake, Utf8.decodeLossy_encode]
    refine .before (Nat.lt_of_not_le hlong) hwalk hsteps hboundary ?_
    rw [htake, Utf8.decode?_encode]

theorem Cut.isLongestStart {limit : Nat} {text kept : String} (h : Cut limit text kept) :
    Utf8.IsLongestStart limit text kept := by
  cases h with
  | whole h => exact Utf8.isLongestStart_self h
  | before _ hwalk _ hboundary hkept =>
    obtain ⟨hcut, -, hlast⟩ := Utf8.walkBack?_eq_some hwalk
    obtain ⟨start, hstart, htake, rfl⟩ := Utf8.exists_start hboundary
    rw [htake, Utf8.decode?_encode] at hkept
    cases hkept
    exact Utf8.isLongestStart_of_last hstart hcut hlast

/-- A response that is no success fails with the class, the number and the endpoint of its status,
    and with the longest start of its text that has at most 512 bytes and ends with a whole
    character: all of a short text, and else what stands before a boundary that a walk back from
    byte 512 finds in three steps at most. -/
theorem errors_keep_longest_start_of_body (decoders : Decoders) (endpoint : String) {r : Response}
    (h : ¬ (200 ≤ r.status ∧ r.status < 300)) :
    ∃ cls kept, checkStatus decoders endpoint r = .error (.status cls r.status endpoint kept) ∧
      (cls = .client ↔ 400 ≤ r.status ∧ r.status < 500) ∧
      (cls = .server ↔ 500 ≤ r.status ∧ r.status < 600) ∧
      Utf8.IsLongestStart 512 (r.text decoders) kept ∧ Cut 512 (r.text decoders) kept := by
  obtain ⟨cls, hfailure, hclient, hserver⟩ :=
    Failure.ofStatus_eq r.status endpoint (cutErrorBody (r.text decoders))
  have hfails : ¬ r.isSuccess = true := by simpa [Response.isSuccess] using h
  have hcut := cut_errorBody (r.text decoders)
  refine ⟨cls, cutErrorBody (r.text decoders), ?_, hclient, hserver, hcut.isLongestStart, hcut⟩
  rw [checkStatus, if_neg hfails, hfailure]

/-- Of a marked text whose 171st character lies across byte 512, the characters before it are
    kept. -/
theorem errors_keep_longest_start_of_body_of_long_text :
    let text := String.ofList (List.replicate 171 '€')
    let r : Response := ⟨503, [], [0xEF :: 0xBB :: 0xBF :: Utf8.encode text], false⟩
    let decoders : Decoders := fun _ => none
    ¬ (200 ≤ r.status ∧ r.status < 300) ∧ r.text decoders = text ∧ ∃ kept,
      checkStatus decoders "/cache/check" r = .error (.status .server 503 "/cache/check" kept) ∧
      kept.toList = List.replicate 170 '€' ∧ Cut 512 text kept := by
  intro text r decoders
  have hstatus : ¬ (200 ≤ r.status ∧ r.status < 300) := by decide
  have hclass : 500 ≤ r.status ∧ r.status < 600 := by decide
  have hchars : text.toList = List.replicate 171 '€' := String.toList_ofList
  clear_value text
  have hbody : r.body = 0xEF :: 0xBB :: 0xBF :: Utf8.encode text := List.append_nil _
  have htext : r.text decoders = text := by
    refine (if_neg Bool.false_ne_true).trans ?_
    rw [hbody]
    exact Utf8.decodeLossy_encode text
  obtain ⟨cls, kept, htold, -, hserver, hlongest, hcut⟩ :=
    errors_keep_longest_start_of_body decoders "/cache/check" hstatus
  rw [htext] at hlongest hcut
  rw [hserver.2 hclass] at htold
  refine ⟨hstatus, htext, kept, htold, ?_, hcut⟩
  have hsize : '€'.utf8Size = 3 := rfl
  obtain ⟨hcount, hsame⟩ := List.prefix_replicate_iff.1 (hchars ▸ hlongest.starts)
  have hwithin : kept.toList.length * 3 ≤ 512 := by
    have hkept := hlongest.within
    rwa [Utf8.encode_eq, hsame, Utf8.length_encodeChars_replicate, hsize] at hkept
  have hlonger : (String.ofList (List.replicate 170 '€')).toList.length ≤ kept.toList.length := by
    refine (hlongest.longest ?_ ?_).length_le
    · rw [String.toList_ofList, hchars]
      exact List.prefix_replicate_iff.2 (by rw [List.length_replicate]; exact ⟨by decide, rfl⟩)
    · rw [Utf8.encode_eq, String.toList_ofList, Utf8.length_encodeChars_replicate, hsize]
      decide
  rw [String.toList_ofList, List.length_replicate] at hlonger
  rw [hsame, show kept.toList.length = 170 by omega]

end Http
end LinkRelay
