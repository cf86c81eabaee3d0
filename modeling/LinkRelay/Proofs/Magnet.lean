import LinkRelay.Key
import LinkRelay.Proofs.Text.Numeral
import Mathlib
set_option autoImplicit false

/-!
# Magnets

Which texts are read as a magnet, and which key they have. The first parameter that names an info
hash decides, and only the hash counts: two magnets have the same key exactly if their hashes agree
up to the case of letters.
-/

namespace LinkRelay

namespace Text

theorem toNat_toLower (c : Char) : c.toLower.toNat =
    if 65 ≤ c.toNat ∧ c.toNat ≤ 90 then c.toNat + 32 else c.toNat := by
  by_cases h : 65 ≤ c.toNat ∧ c.toNat ≤ 90
  · have hval : c.val ≥ 'A'.val ∧ c.val ≤ 'Z'.val := h
    have hsmall : c.val.toNat ≤ 90 := h.2
    rw [if_pos h, Char.toLower, dif_pos hval]
    change (c.val + 32).toNat = c.val.toNat + 32
    rw [UInt32.toNat_add]
    change (c.val.toNat + 32) % 4294967296 = _
    omega
  · have hval : ¬ (c.val ≥ 'A'.val ∧ c.val ≤ 'Z'.val) := h
    rw [if_neg h, Char.toLower, dif_neg hval]

theorem isHexDigit_iff {c : Char} : isHexDigit c = true ↔
    (48 ≤ c.toNat ∧ c.toNat ≤ 57) ∨ (97 ≤ c.toNat ∧ c.toNat ≤ 102) ∨
      (65 ≤ c.toNat ∧ c.toNat ≤ 70) := by
  rw [isHexDigit, Bool.or_eq_true, Bool.or_eq_true, isDigit_iff, Bool.and_eq_true, Bool.and_eq_true,
    decide_eq_true_eq, decide_eq_true_eq, decide_eq_true_eq, decide_eq_true_eq, or_assoc]
  exact Iff.rfl

theorem isHexDigit_toLower (c : Char) : isHexDigit c.toLower = isHexDigit c := by
  rw [Bool.eq_iff_iff, isHexDigit_iff, isHexDigit_iff, toNat_toLower]
  split <;> omega

theorem asciiLower_asciiLower (s : List Char) : asciiLower (asciiLower s) = asciiLower s := by
  simp [asciiLower]

end Text

namespace Key

def IsBase32 (c : Char) : Prop := c.isAlpha = true ∨ 50 ≤ c.toNat ∧ c.toNat ≤ 55

theorem isAlpha_iff {c : Char} : c.isAlpha = true ↔
    (65 ≤ c.toNat ∧ c.toNat ≤ 90) ∨ (97 ≤ c.toNat ∧ c.toNat ≤ 122) := by
  rw [Char.isAlpha, Char.isUpper, Char.isLower, Bool.or_eq_true, Bool.and_eq_true,
    decide_eq_true_eq, decide_eq_true_eq, decide_eq_true_eq]
  exact Iff.rfl

theorem isBase32_toLower {c : Char} : isBase32 c.toLower = true ↔ IsBase32 c := by
  have hbase32 (d : Char) : isBase32 d = true ↔
      (97 ≤ d.toNat ∧ d.toNat ≤ 122) ∨ (50 ≤ d.toNat ∧ d.toNat ≤ 55) := by
    rw [isBase32, Bool.or_eq_true, Bool.and_eq_true, Bool.and_eq_true, decide_eq_true_eq,
      decide_eq_true_eq, decide_eq_true_eq, decide_eq_true_eq]
    exact Iff.rfl
  rw [hbase32, IsBase32, isAlpha_iff, Text.toNat_toLower]
  split <;> omega

/-- The two forms of an info hash: forty hexadecimal digits, or thirty-two of base 32. -/
def IsHash (hash : List Char) : Prop :=
  (hash.length = 40 ∧ ∀ c ∈ hash, Text.isHexDigit c = true) ∨
    (hash.length = 32 ∧ ∀ c ∈ hash, IsBase32 c)

theorem isInfoHash_asciiLower {hash : List Char} :
    isInfoHash (Text.asciiLower hash) = true ↔ IsHash hash := by
  simp [isInfoHash, IsHash, Text.asciiLower, Text.isHexDigit_toLower, isBase32_toLower]

theorem IsHash.asciiLower {hash : List Char} (h : IsHash hash) : IsHash (Text.asciiLower hash) := by
  rw [← isInfoHash_asciiLower, Text.asciiLower_asciiLower]
  exact isInfoHash_asciiLower.2 h

theorem IsHash.plain {hash : List Char} (h : IsHash hash) :
    ∀ c ∈ hash, Text.isBlank c = false ∧ c ≠ '&' := by
  intro c hc
  have hrange : 48 ≤ c.toNat ∧ c.toNat ≤ 122 := by
    rcases h with ⟨-, h⟩ | ⟨-, h⟩
    · have := Text.isHexDigit_iff.1 (h c hc)
      omega
    · have hbase := h c hc
      rw [IsBase32, isAlpha_iff] at hbase
      omega
  constructor
  · simp [Text.isBlank]
    omega
  · rintro rfl
    exact absurd hrange.1 (by decide)

/-- A parameter that names a hash. Its name is `xt` and nothing else, but the case of what stands
    before the hash does not count. -/
def IsTopic (parameter hash : List Char) : Prop :=
  ∃ lead, parameter = "xt=".toList ++ (lead ++ hash) ∧ Text.asciiLower lead = "urn:btih:".toList

theorem topicHash?_eq_some_iff {parameter lower : List Char} :
    topicHash? parameter = some lower ↔
      ∃ hash, IsTopic parameter hash ∧ lower = Text.asciiLower hash := by
  unfold topicHash?
  rw [Option.bind_eq_bind, Option.bind_eq_some_iff]
  constructor
  · rintro ⟨⟨name, value⟩, hsplit, h⟩
    dsimp only at h
    split at h
    · rename_i hname
      obtain ⟨lead, hash, hvalue, hlead, hhash⟩ :=
        List.map_eq_append_iff.1 (Text.after?_eq_some_iff.1 h)
      refine ⟨hash, ⟨lead, ?_, hlead⟩, hhash.symm⟩
      rw [Text.splitFirst_append hsplit, hname, hvalue]
      rfl
    · cases h
  · rintro ⟨hash, ⟨lead, rfl, hlead⟩, rfl⟩
    have hname : '=' ∉ "xt".toList := by decide
    refine ⟨("xt".toList, lead ++ hash), Text.splitFirst_of_notMem _ hname, ?_⟩
    dsimp only
    rw [if_pos rfl, Text.after?_eq_some_iff, ← hlead]
    exact List.map_append

theorem topicHash?_eq_none_iff {parameter : List Char} :
    topicHash? parameter = none ↔ ∀ hash, ¬ IsTopic parameter hash := by
  rw [Option.eq_none_iff_forall_ne_some]
  constructor
  · intro h hash htopic
    exact h _ (topicHash?_eq_some_iff.2 ⟨hash, htopic, rfl⟩)
  · intro h lower hlower
    obtain ⟨hash, htopic, -⟩ := topicHash?_eq_some_iff.1 hlower
    exact h hash htopic

/-- The first of a magnet's parameters that names a hash names this one. -/
def Names (magnet : String) (hash : List Char) : Prop :=
  ∃ query before parameter after, Text.trim magnet.toList = "magnet:?".toList ++ query ∧
    query.splitOn '&' = before ++ parameter :: after ∧ IsTopic parameter hash ∧
    ∀ earlier ∈ before, ∀ other, ¬ IsTopic earlier other

theorem findSome?_topicHash?_iff {query lower : List Char} :
    (Text.splitAll '&' query).findSome? topicHash? = some lower ↔
      ∃ hash before parameter after, query.splitOn '&' = before ++ parameter :: after ∧
        IsTopic parameter hash ∧ (∀ earlier ∈ before, ∀ other, ¬ IsTopic earlier other) ∧
        lower = Text.asciiLower hash := by
  rw [Text.splitAll_eq_splitOn, List.findSome?_eq_some_iff]
  simp only [topicHash?_eq_some_iff, topicHash?_eq_none_iff]
  constructor
  · rintro ⟨before, parameter, after, hsplit, ⟨hash, htopic, hlower⟩, hbefore⟩
    exact ⟨hash, before, parameter, after, hsplit, htopic, hbefore, hlower⟩
  · rintro ⟨hash, before, parameter, after, hsplit, htopic, hbefore, hlower⟩
    exact ⟨before, parameter, after, hsplit, ⟨hash, htopic, hlower⟩, hbefore⟩

theorem ofMagnet_judged (magnet : String) :
    match ofMagnet magnet with
    | .ok key => ∃ hash, Names magnet hash ∧ IsHash hash ∧
        key = .torrent (String.ofList (Text.asciiLower hash)) magnet
    | .error f => ∃ fault, f = .parse fault := by
  unfold ofMagnet
  dsimp only [bind, Except.bind, pure, Except.pure, throw, throwThe, MonadExceptOf.throw]
  cases hquery : Text.after? "magnet:?".toList (Text.trim magnet.toList) with
  | none => exact ⟨_, rfl⟩
  | some query =>
    dsimp only
    cases hfind : (Text.splitAll '&' query).findSome? topicHash? with
    | none => exact ⟨_, rfl⟩
    | some lower =>
      obtain ⟨hash, before, parameter, after, hsplit, htopic, hbefore, rfl⟩ :=
        findSome?_topicHash?_iff.1 hfind
      dsimp only
      by_cases hhash : isInfoHash (Text.asciiLower hash) = true
      · rw [if_pos hhash]
        refine ⟨hash, ⟨query, before, parameter, after, ?_, hsplit, htopic, hbefore⟩,
          isInfoHash_asciiLower.1 hhash, rfl⟩
        exact Text.eq_append_of_after? hquery
      · rw [if_neg hhash]
        exact ⟨_, rfl⟩

theorem ofMagnet_of_names {magnet : String} {hash : List Char} (h : Names magnet hash)
    (hhash : IsHash hash) :
    ofMagnet magnet = .ok (.torrent (String.ofList (Text.asciiLower hash)) magnet) := by
  obtain ⟨query, before, parameter, after, htext, hsplit, htopic, hbefore⟩ := h
  have hfind := findSome?_topicHash?_iff.2
    ⟨hash, before, parameter, after, hsplit, htopic, hbefore, rfl⟩
  unfold ofMagnet
  dsimp only [bind, Except.bind, pure, Except.pure, throw, throwThe, MonadExceptOf.throw]
  rw [htext, Text.after?_append]
  dsimp only
  rw [hfind]
  dsimp only
  rw [if_pos (isInfoHash_asciiLower.2 hhash)]

theorem Names.lower_unique {magnet : String} {hash other : List Char} (h : Names magnet hash)
    (hother : Names magnet other) : Text.asciiLower hash = Text.asciiLower other := by
  obtain ⟨query, before, parameter, after, htext, hsplit, htopic, hbefore⟩ := h
  obtain ⟨query', before', parameter', after', htext', hsplit', htopic', hbefore'⟩ := hother
  obtain rfl : query = query' := List.append_cancel_left (htext.symm.trans htext')
  have hfirst := findSome?_topicHash?_iff.2
    ⟨hash, before, parameter, after, hsplit, htopic, hbefore, rfl⟩
  have hfirst' := findSome?_topicHash?_iff.2
    ⟨other, before', parameter', after', hsplit', htopic', hbefore', rfl⟩
  exact Option.some.inj (hfirst.symm.trans hfirst')

theorem names_plain {hash : List Char} (h : IsHash hash) :
    Names ("magnet:?xt=urn:btih:" ++ String.ofList hash) hash := by
  refine ⟨"xt=urn:btih:".toList ++ hash, [], "xt=urn:btih:".toList ++ hash, [], ?_, ?_,
    ⟨"urn:btih:".toList, rfl, by decide⟩, nofun⟩
  · have htext : ("magnet:?xt=urn:btih:" ++ String.ofList hash).toList =
        "magnet:?xt=urn:btih:".toList ++ hash := by simp
    rw [htext, Text.trim_append_of_not_blank (by decide) fun c hc => (h.plain c hc).1]
    rfl
  · apply List.splitOn_eq_singleton
    intro hc
    rcases List.mem_append.1 hc with hc | hc
    · exact absurd hc (by decide)
    · exact (h.plain '&' hc).2 rfl

theorem same_iff {a b : Key} : a.same b = true ↔ a.kind = b.kind ∧ a.id = b.id := by
  simp [same]

theorem same_iff_feed {a b : Key} : a.same b = true ↔
    ∀ (σ : Type) (kind : Kind → σ → σ) (text : String → σ → σ) (state : σ),
      a.feed kind text state = b.feed kind text state := by
  rw [same_iff]
  constructor
  · rintro ⟨hkind, hid⟩ σ kind text state
    rw [feed, feed, hkind, hid]
  · intro h
    have hfed := h (List (Kind ⊕ String)) (fun k fed => .inl k :: fed)
      (fun s fed => .inr s :: fed) []
    simp only [feed, List.cons.injEq, Sum.inl.injEq, Sum.inr.injEq, and_true] at hfed
    exact ⟨hfed.2, hfed.1⟩

theorem same_torrents {a b magnet other : String} :
    (torrent a magnet).same (torrent b other) = true ↔ a = b := by
  simp [same, kind, id]

/-- A magnet gives a key exactly if the first of its parameters that names an info hash names one in
    full, and fails to parse otherwise. Its key is the hash in lower case and keeps the text. What
    such a key is written as reads back as the same key, so two magnets have one key exactly if
    their hashes agree up to the case of letters, and then every hasher takes them for one. No
    torrent is a release. -/
theorem magnets_are_known_by_their_hash :
    (∀ magnet key, ofMagnet magnet = .ok key ↔ ∃ hash, Names magnet hash ∧ IsHash hash ∧
      key = .torrent (String.ofList (Text.asciiLower hash)) magnet) ∧
    (∀ magnet, (¬ ∃ hash, Names magnet hash ∧ IsHash hash) →
      ∃ fault, ofMagnet magnet = .error (.parse fault)) ∧
    (∀ magnet key, ofMagnet magnet = .ok key →
      ∃ again, ofMagnet ("magnet:?xt=urn:btih:" ++ key.id) = .ok again ∧ again.same key = true) ∧
    (∀ magnet other hash hash' key key', Names magnet hash → Names other hash' →
      ofMagnet magnet = .ok key → ofMagnet other = .ok key' →
      (key.same key' = true ↔ Text.asciiLower hash = Text.asciiLower hash') ∧
      (key.same key' = true ↔
        ∀ (σ : Type) (kind : Kind → σ → σ) (text : String → σ → σ) (state : σ),
          key.feed kind text state = key'.feed kind text state)) ∧
    ∀ hash magnet release, (torrent hash magnet).same (usenet release) = false ∧
      (usenet release).same (torrent hash magnet) = false := by
  have haccepted : ∀ magnet key, ofMagnet magnet = .ok key ↔ ∃ hash, Names magnet hash ∧
      IsHash hash ∧ key = .torrent (String.ofList (Text.asciiLower hash)) magnet := by
    intro magnet key
    constructor
    · intro h
      have hjudged := ofMagnet_judged magnet
      rwa [h] at hjudged
    · rintro ⟨hash, hnames, hhash, rfl⟩
      exact ofMagnet_of_names hnames hhash
  refine ⟨haccepted, ?_, ?_, ?_, ?_⟩
  · intro magnet hnone
    have hjudged := ofMagnet_judged magnet
    cases h : ofMagnet magnet with
    | ok key =>
      obtain ⟨hash, hnames, hhash, -⟩ := (haccepted magnet key).1 h
      exact absurd ⟨hash, hnames, hhash⟩ hnone
    | error f =>
      rw [h] at hjudged
      obtain ⟨fault, rfl⟩ := hjudged
      exact ⟨fault, rfl⟩
  · intro magnet key h
    obtain ⟨hash, -, hhash, rfl⟩ := (haccepted magnet key).1 h
    have hlower := hhash.asciiLower
    refine ⟨_, ofMagnet_of_names (names_plain hlower) hlower, ?_⟩
    rw [same_torrents, Text.asciiLower_asciiLower]
  · intro magnet other hash hash' key key' hnames hnames' h h'
    refine ⟨?_, same_iff_feed⟩
    have hkey := haccepted magnet key |>.1 h
    have hkey' := haccepted other key' |>.1 h'
    obtain ⟨found, hfound, -, rfl⟩ := hkey
    obtain ⟨found', hfound', -, rfl⟩ := hkey'
    rw [same_torrents, String.ofList_inj, hfound.lower_unique hnames,
      hfound'.lower_unique hnames']
  · intro hash magnet release
    simp [same, kind]

/-- Two magnets in different case and order, with blanks before one of them. -/
theorem magnets_are_known_by_their_hash_in_either_case :
    ∃ key key', ofMagnet " magnet:?dn=x&xt=urn:BTIH:ABCDEFGHIJKLMNOPQRSTUVWXYZ234567" = .ok key ∧
      ofMagnet "magnet:?xt=urn:btih:abcdefghijklmnopqrstuvwxyz234567&tr=udp" = .ok key' ∧
      key.same key' = true := by
  obtain ⟨haccepted, -, -, hsame, -⟩ := magnets_are_known_by_their_hash
  have hnames : Names " magnet:?dn=x&xt=urn:BTIH:ABCDEFGHIJKLMNOPQRSTUVWXYZ234567"
      "ABCDEFGHIJKLMNOPQRSTUVWXYZ234567".toList := by
    refine ⟨"dn=x&xt=urn:BTIH:ABCDEFGHIJKLMNOPQRSTUVWXYZ234567".toList, ["dn=x".toList],
      "xt=urn:BTIH:ABCDEFGHIJKLMNOPQRSTUVWXYZ234567".toList, [], by decide, by decide,
      ⟨"urn:BTIH:".toList, by decide, by decide⟩, ?_⟩
    intro earlier hearlier
    cases List.mem_singleton.1 hearlier
    exact topicHash?_eq_none_iff.1 (by decide)
  have hnames' : Names "magnet:?xt=urn:btih:abcdefghijklmnopqrstuvwxyz234567&tr=udp"
      "abcdefghijklmnopqrstuvwxyz234567".toList :=
    ⟨"xt=urn:btih:abcdefghijklmnopqrstuvwxyz234567&tr=udp".toList, [],
      "xt=urn:btih:abcdefghijklmnopqrstuvwxyz234567".toList, ["tr=udp".toList], by decide,
      by decide, ⟨"urn:btih:".toList, by decide, by decide⟩, nofun⟩
  have hkey := (haccepted _ _).2 ⟨_, hnames, isInfoHash_asciiLower.1 (by decide), rfl⟩
  have hkey' := (haccepted _ _).2 ⟨_, hnames', isInfoHash_asciiLower.1 (by decide), rfl⟩
  exact ⟨_, _, hkey, hkey', (hsame _ _ _ _ _ _ hnames hnames' hkey hkey').1.2 (by decide)⟩

end Key
end LinkRelay
