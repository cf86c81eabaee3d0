import LinkRelay.Client.Basic
import LinkRelay.Proofs.Url.Refusals
import Mathlib.Data.List.Induction
import Mathlib.Data.List.TakeWhile
set_option autoImplicit false

/-!
# Web addresses without their final slashes

What follows the host in a web address may be left out, so the address can be read without the
slashes at its end where it can be read with them. Blanks and controls that stood before those
slashes come to stand at the end, where they do not count; inside the host they are refused.
-/

namespace LinkRelay

def IsTail (c : Char) : Prop := IsBare c ∨ c = '/'

namespace IsTail

variable {c d : Char}

theorem ne (h : IsTail c) (hd : 0x20 < d.toNat) (hslash : d ≠ '/') : c ≠ d := by
  rcases h with h | rfl
  · exact h.ne hd
  · exact hslash.symm

theorem not_isDigit (h : IsTail c) : c.isDigit = false := by
  rcases h with h | rfl
  · exact h.not_isDigit
  · rfl

theorem not_isAlpha (h : IsTail c) : c.isAlpha = false := by
  rcases h with h | rfl
  · have hupper : ¬ (c.val ≥ 'A'.val ∧ c.val ≤ 'Z'.val) := fun hc => h.not_ge (by decide) hc.1
    have hlower : ¬ c.val ≥ 'a'.val := h.not_ge (by decide)
    exact Bool.or_eq_false_iff.2
      ⟨decide_eq_false hupper, Bool.and_eq_false_iff.2 (.inl (decide_eq_false hlower))⟩
  · rfl

theorem not_isSchemeChar (h : IsTail c) : Url.isSchemeChar c = false := by
  rw [Url.isSchemeChar, Char.isAlphanum, h.not_isAlpha, h.not_isDigit,
    beq_eq_false_iff_ne.2 (h.ne (by decide) (by decide) : c ≠ '+'),
    beq_eq_false_iff_ne.2 (h.ne (by decide) (by decide) : c ≠ '-'),
    beq_eq_false_iff_ne.2 (h.ne (by decide) (by decide) : c ≠ '.')]
  rfl

end IsTail

namespace Text

theorem splitLast_append {sep : Char} {s before after : List Char}
    (h : splitLast sep s = some (before, after)) : s = before ++ sep :: after := by
  obtain ⟨⟨after', before'⟩, hfirst, heq⟩ := Option.map_eq_some_iff.1 h
  cases heq
  rw [← List.reverse_reverse s, splitFirst_append hfirst]
  simp

theorem splitLast_concat {sep c : Char} (h : c ≠ sep) (s : List Char) :
    splitLast sep (s ++ [c]) =
      (splitLast sep s).map fun (before, after) => (before, after ++ [c]) := by
  rw [splitLast, List.reverse_append, List.reverse_singleton, List.singleton_append, splitFirst,
    if_neg h, splitLast, Option.map_map, Option.map_map]
  refine congrArg (Option.map · _) (funext fun pair => ?_)
  simp

theorem dropRight_of_not {p : Char → Bool} {s : List Char} {c : Char} (hc : p c = false) :
    dropRight p (s ++ [c]) = s ++ [c] := by
  rw [dropRight, List.reverse_append, List.reverse_singleton, List.singleton_append,
    List.dropWhile_cons_of_neg (by simp [hc]), List.reverse_cons, List.reverse_reverse]

end Text

namespace Url

open Text

variable {rules : Domain.Rules} {s : List Char} {c : Char} {scheme : String}

theorem takeScheme_of_concat (hc : IsTail c) {rest : List Char}
    (h : takeScheme (s ++ [c]) = some (scheme, rest)) :
    ∃ rest', takeScheme s = some (scheme, rest') ∧ rest = rest' ++ [c] := by
  cases s with
  | nil =>
    rw [List.nil_append, takeScheme, hc.not_isAlpha, if_neg Bool.false_ne_true] at h
    cases h
  | cons d s =>
    have hcolon : c ≠ ':' := hc.ne (by decide) (by decide)
    have htake : s.takeWhile isSchemeChar = (s ++ [c]).takeWhile isSchemeChar := by
      rw [List.takeWhile_append]
      split
      next hall =>
        rw [List.takeWhile_cons_of_neg (by simp [hc.not_isSchemeChar]), List.append_nil]
        exact (List.takeWhile_prefix _).eq_of_length hall
      next => rfl
    rw [List.cons_append, takeScheme, ← htake] at h
    rw [takeScheme]
    split at h
    next halpha =>
      rw [if_pos halpha]
      rw [List.dropWhile_append] at h
      cases hrest : s.dropWhile isSchemeChar with
      | nil =>
        -- the scheme would end in the character at the end
        rw [hrest, List.isEmpty_nil, if_pos rfl,
          List.dropWhile_cons_of_neg (by simp [hc.not_isSchemeChar])] at h
        split at h
        next heq => exact absurd (List.cons.inj heq).1 hcolon
        next => cases h
      | cons e t =>
        rw [hrest, List.isEmpty_cons, if_neg Bool.false_ne_true, List.cons_append] at h
        split at h
        next after heq =>
          cases heq
          cases h
          exact ⟨t, rfl, rfl⟩
        next => cases h
    next => cases h

def portOf (scheme : String) : List Char → Except UrlFault (Option Nat × List Char)
  | ':' :: after => readPort scheme after
  | after => .ok (none, after)

theorem portOf_of_ne {after : List Char} (h : ∀ rest, after ≠ ':' :: rest) :
    portOf scheme after = .ok (none, after) := by
  unfold portOf
  split
  next rest => exact absurd rfl (h rest)
  next => rfl

theorem readAuthority_of_special (rules : Domain.Rules) (h : isSpecialScheme scheme = true)
    (s : List Char) :
    readAuthority rules scheme s =
      (readUserInfo true s).bind fun (username, password, rest) =>
        let (hostText, after) := takeHost true false rest
        if hostText = [] then .error .emptyHost
        else (Host.readSpecial rules hostText).bind fun host =>
          (portOf scheme after).map fun (port, rest) =>
            let (pathText, rest) := upTo endsPath rest
            let (query, fragment) := readEnd true rest
            ⟨scheme, username, password, some host, port, .segments (readPath true [] pathText),
              query, fragment⟩ := by
  unfold readAuthority
  rw [h]
  refine congrArg (Except.bind (readUserInfo true s)) (funext fun (username, password, rest) => ?_)
  dsimp only
  generalize takeHost true false rest = taken
  obtain ⟨hostText, after⟩ := taken
  cases hostText with
  | nil => rfl
  | cons c hostText =>
    refine congrArg (Except.bind (Host.readSpecial rules (c :: hostText))) (funext fun host => ?_)
    refine (if_neg Bool.false_ne_true).trans ?_
    dsimp only
    split
    next digits =>
      change Except.bind (readPort scheme digits) _ = Except.map _ (readPort scheme digits)
      cases readPort scheme digits <;> rfl
    next hnone =>
      rw [portOf_of_ne hnone]
      rfl

/-- An authority of a special scheme that can be read, with what follows its user info. -/
structure IsAuthority (rules : Domain.Rules) (scheme : String) (s rest : List Char) : Prop where
  info : ∃ name password, readUserInfo true s = .ok (name, password, rest)
  nonempty : (takeHost true false rest).1 ≠ []
  host : ∃ host, Host.readSpecial rules (takeHost true false rest).1 = .ok host
  port : ∃ port, portOf scheme (takeHost true false rest).2 = .ok port

theorem isAuthority_of_ok (hspecial : isSpecialScheme scheme = true) {u : Url}
    (h : readAuthority rules scheme s = .ok u) : ∃ rest, IsAuthority rules scheme s rest := by
  rw [readAuthority_of_special rules hspecial] at h
  cases hinfo : readUserInfo true s with
  | error f =>
    rw [hinfo] at h
    cases h
  | ok info =>
    obtain ⟨name, password, rest⟩ := info
    rw [hinfo, Except.bind] at h
    dsimp only at h
    split at h
    next => cases h
    next hnonempty =>
      cases hhost : Host.readSpecial rules (takeHost true false rest).1 with
      | error f =>
        rw [hhost] at h
        cases h
      | ok host =>
        rw [hhost, Except.bind] at h
        cases hport : portOf scheme (takeHost true false rest).2 with
        | error f =>
          rw [hport] at h
          cases h
        | ok port => exact ⟨rest, ⟨name, password, hinfo⟩, hnonempty, ⟨host, hhost⟩, port, hport⟩

theorem IsAuthority.ok (hspecial : isSpecialScheme scheme = true) {rest : List Char}
    (h : IsAuthority rules scheme s rest) :
    ∃ u host names, readAuthority rules scheme s = .ok u ∧ u.scheme = scheme ∧ u.host = some host ∧
      Host.readSpecial rules (takeHost true false rest).1 = .ok host ∧ u.path = .segments names := by
  obtain ⟨⟨name, password, hinfo⟩, hnonempty, ⟨host, hhost⟩, ⟨port, after⟩, hport⟩ := h
  rw [readAuthority_of_special rules hspecial, hinfo, Except.bind]
  dsimp only
  rw [if_neg hnonempty, hhost, Except.bind, hport]
  exact ⟨_, host, _, rfl, rfl, rfl, rfl, rfl⟩

section Concat

variable {rest : List Char} (hc : IsTail c)

include hc

theorem splitLast_upTo_concat (p : Char → Bool) : ∃ extra,
    splitLast '@' (upTo p (s ++ [c])).1 =
      (splitLast '@' (upTo p s).1).map fun (before, after) => (before, after ++ extra) := by
  have hsame : (fun e : List Char × List Char => (e.1, e.2 ++ [])) = id := by
    funext e
    rw [List.append_nil]
    rfl
  rw [upTo, upTo, List.takeWhile_append]
  split
  next hall =>
    have hs : s.takeWhile (fun c => !p c) = s := (List.takeWhile_prefix _).eq_of_length hall
    rw [hs]
    cases hp : p c with
    | true =>
      refine ⟨[], ?_⟩
      rw [List.takeWhile_cons_of_neg (by simp [hp]), List.append_nil]
      exact (congrFun (congrArg Option.map hsame) _).trans (Option.map_id_apply) |>.symm
    | false =>
      refine ⟨[c], ?_⟩
      rw [List.takeWhile_cons_of_pos (by simp [hp]), List.takeWhile_nil]
      exact splitLast_concat (hc.ne (by decide) (by decide)) s
  next =>
    refine ⟨[], ?_⟩
    exact (congrFun (congrArg Option.map hsame) _).trans (Option.map_id_apply) |>.symm

theorem readUserInfo_of_concat {name password : String}
    (h : readUserInfo true (s ++ [c]) = .ok (name, password, rest)) :
    ∃ rest', readUserInfo true s = .ok (name, password, rest') ∧ rest = rest' ++ [c] := by
  obtain ⟨extra, hsplit⟩ := splitLast_upTo_concat (s := s) hc fun c => isSlash true c || endsPath c
  unfold readUserInfo at h ⊢
  dsimp only at h ⊢
  rw [hsplit] at h
  cases hlast : splitLast '@' (upTo (fun c => isSlash true c || endsPath c) s).1 with
  | none =>
    rw [hlast] at h
    cases h
    exact ⟨s, rfl, rfl⟩
  | some e =>
    obtain ⟨info, after⟩ := e
    rw [hlast, Option.map_some] at h
    dsimp only at h ⊢
    have hlength : info.length + 1 ≤ s.length := by
      have hprefix := (List.takeWhile_prefix (l := s)
        fun c => !(isSlash true c || endsPath c)).length_le
      rw [show s.takeWhile _ = _ from splitLast_append hlast] at hprefix
      simp only [List.length_append, List.length_cons] at hprefix
      omega
    rw [List.drop_append_of_le_length hlength] at h
    generalize s.drop (info.length + 1) = rest' at h
    split at h
    next => cases h
    next hnot =>
      have hstart : ¬ (info.isEmpty && rest'.head?.map (fun c => isSlash true c || endsPath c) ==
          some true) = true := by
        cases rest' with
        | nil => rw [List.head?_nil, Option.map_none, show (none == some true) = false from rfl,
            Bool.and_false]; exact Bool.false_ne_true
        | cons e t => exact hnot
      rw [if_neg hstart]
      split at h <;> cases h
      · exact ⟨rest', rfl, rfl⟩
      · exact ⟨rest', rfl, rfl⟩

theorem takeHost_concat (inside : Bool) (s : List Char) :
    ((takeHost true inside s).2 ≠ [] ∧ takeHost true inside (s ++ [c]) =
      ((takeHost true inside s).1, (takeHost true inside s).2 ++ [c])) ∨
    (takeHost true inside s = (s, []) ∧
      (takeHost true inside (s ++ [c]) = (s, [c]) ∨
        IsBare c ∧ takeHost true inside (s ++ [c]) = (s ++ [c], []))) := by
  induction s generalizing inside with
  | nil =>
    refine .inr ⟨rfl, ?_⟩
    rcases hc with hc | rfl
    · refine .inr ⟨hc, ?_⟩
      have hstop : (isSlash true c || endsPath c || (c == ':' && !inside)) = false := by
        rw [isSlash, endsPath, beq_eq_false_iff_ne.2 (hc.ne (by decide) : c ≠ '/'),
          beq_eq_false_iff_ne.2 (hc.ne (by decide) : c ≠ '\\'),
          beq_eq_false_iff_ne.2 (hc.ne (by decide) : c ≠ '?'),
          beq_eq_false_iff_ne.2 (hc.ne (by decide) : c ≠ '#'),
          beq_eq_false_iff_ne.2 (hc.ne (by decide) : c ≠ ':')]
        rfl
      rw [List.nil_append, takeHost, hstop]
      rfl
    · exact .inl rfl
  | cons d s ih =>
    rw [List.cons_append, takeHost, takeHost]
    split
    next => exact .inl ⟨List.cons_ne_nil _ _, rfl⟩
    next =>
      dsimp only
      rcases ih
        (if (d == '[') = true then true else if (d == ']') = true then false else inside) with
        ⟨hmore, heq⟩ | ⟨hall, heq | ⟨hbare, heq⟩⟩
      · exact .inl ⟨hmore, by rw [heq]⟩
      · exact .inr ⟨by rw [hall], .inl (by rw [heq])⟩
      · exact .inr ⟨by rw [hall], .inr ⟨hbare, by rw [heq]⟩⟩

theorem readPort_of_concat {r : Option Nat × List Char} (h : readPort scheme (s ++ [c]) = .ok r) :
    ∃ r', readPort scheme s = .ok r' := by
  have hdigit : ¬ (!(!c.isDigit)) = true := by
    rw [hc.not_isDigit]
    exact Bool.false_ne_true
  have htake : (s ++ [c]).takeWhile (fun c => !(!c.isDigit)) =
      s.takeWhile fun c => !(!c.isDigit) := by
    rw [List.takeWhile_append]
    split
    next hall =>
      rw [List.takeWhile_cons_of_neg (p := fun c : Char => !(!c.isDigit)) hdigit, List.append_nil]
      exact ((List.takeWhile_prefix _).eq_of_length hall).symm
    next => rfl
  have hdrop : (s ++ [c]).dropWhile (fun c => !(!c.isDigit)) = _ := List.dropWhile_append
  rw [List.dropWhile_cons_of_neg (p := fun c : Char => !(!c.isDigit)) hdigit] at hdrop
  unfold readPort upTo at h ⊢
  rw [htake, hdrop] at h
  dsimp only at h ⊢
  split at h
  next => cases h
  next hbound =>
    rw [if_neg hbound]
    cases hrest : s.dropWhile fun c => !(!c.isDigit) with
    | nil => exact ⟨_, rfl⟩
    | cons d rest =>
      rw [hrest, List.isEmpty_cons, if_neg Bool.false_ne_true, List.cons_append,
        List.head?_cons] at h
      rw [List.head?_cons]
      split at h
      next => cases h
      next hstop =>
        cases hd : isSlash true d || endsPath d with
        | false => exact absurd (congrArg some hd) hstop
        | true => exact ⟨_, rfl⟩

theorem portOf_of_concat {r : Option Nat × List Char} (h : portOf scheme (s ++ [c]) = .ok r) :
    ∃ r', portOf scheme s = .ok r' := by
  cases s with
  | nil => exact ⟨_, rfl⟩
  | cons d s =>
    by_cases hd : d = ':'
    · subst hd
      exact readPort_of_concat hc h
    · exact ⟨_, portOf_of_ne fun rest hrest => hd (List.cons.inj hrest).1⟩

theorem IsAuthority.of_concat (h : IsAuthority rules scheme (s ++ [c]) rest) :
    ∃ rest', IsAuthority rules scheme s rest' := by
  obtain ⟨⟨name, password, hinfo⟩, hnonempty, ⟨host, hhost⟩, ⟨port, hport⟩⟩ := h
  obtain ⟨rest, hinfo', rfl⟩ := readUserInfo_of_concat hc hinfo
  rcases takeHost_concat hc false rest with ⟨hmore, heq⟩ | ⟨hall, heq | ⟨hbare, heq⟩⟩
  · rw [heq] at hnonempty hhost hport
    exact ⟨rest, ⟨name, password, hinfo'⟩, hnonempty, ⟨host, hhost⟩, portOf_of_concat hc hport⟩
  · rw [heq] at hnonempty hhost
    refine ⟨rest, ⟨name, password, hinfo'⟩, ?_, ?_, ?_⟩ <;> rw [hall]
    · exact hnonempty
    · exact ⟨host, hhost⟩
    · exact ⟨_, rfl⟩
  · rw [heq] at hhost
    exact absurd hhost (Host.readSpecial_concat rules hbare rest host)

theorem dropSlashes_of_concat
    (h : IsAuthority rules scheme ((s ++ [c]).dropWhile (isSlash true)) rest) :
    ∃ rest', IsAuthority rules scheme (s.dropWhile (isSlash true)) rest' := by
  rw [List.dropWhile_append] at h
  cases hrest : s.dropWhile (isSlash true) with
  | cons d after =>
    rw [hrest, List.isEmpty_cons, if_neg Bool.false_ne_true] at h
    exact h.of_concat hc
  | nil =>
    rw [hrest, List.isEmpty_nil, if_pos rfl] at h
    cases hslash : isSlash true c with
    | true =>
      rw [List.dropWhile_cons_of_pos hslash, List.dropWhile_nil] at h
      obtain ⟨⟨name, password, hinfo⟩, hnonempty, -, -⟩ := h
      cases hinfo
      exact absurd rfl hnonempty
    | false =>
      rw [List.dropWhile_cons_of_neg (by simp [hslash])] at h
      exact IsAuthority.of_concat (s := []) hc h

end Concat

/-- What can be read of a web address: its host is there, and its path is a hierarchy. -/
structure IsWeb (u : Url) : Prop where
  scheme : u.scheme = "http" ∨ u.scheme = "https"
  host : u.hasHost = true
  hierarchy : ∃ names, u.path = .segments names

def readText (rules : Domain.Rules) (s : List Char) : Except UrlFault Url :=
  match takeScheme s with
  | some (scheme, rest) => readAfterScheme rules none scheme rest
  | none => .error .relative

theorem read_eq (rules : Domain.Rules) (text : String) :
    read rules text = readText rules (essence text) := rfl

theorem readAuthority_scheme {u : Url} (h : readAuthority rules scheme s = .ok u) :
    u.scheme = scheme := by
  unfold readAuthority at h
  simp only [bind, Except.bind, pure, Except.pure, throw, throwThe, MonadExceptOf.throw] at h
  repeat' split at h
  all_goals cases h
  all_goals rfl

theorem readFile_scheme {u : Url} (h : readFile rules s = .ok u) : u.scheme = "file" := by
  unfold readFile at h
  simp only [bind, Except.bind, pure, Except.pure] at h
  repeat' split at h
  all_goals cases h
  all_goals rfl

theorem readAfterScheme_scheme {rest : List Char} {u : Url}
    (h : readAfterScheme rules none scheme rest = .ok u) : u.scheme = scheme := by
  unfold readAfterScheme at h
  split at h
  next hfile => exact (readFile_scheme h).trans (eq_of_beq hfile).symm
  next =>
    split at h
    next => exact readAuthority_scheme h
    next =>
      split at h
      next => exact readAuthority_scheme h
      next =>
        cases h
        rfl

theorem readAfterScheme_of_web (hweb : scheme = "http" ∨ scheme = "https") (rest : List Char) :
    readAfterScheme rules none scheme rest =
      readAuthority rules scheme (rest.dropWhile (isSlash true)) := by
  have hdrop : rest.drop (rest.takeWhile (isSlash true)).length =
      rest.dropWhile (isSlash true) := by
    have hsplit := List.takeWhile_append_dropWhile (p := isSlash true) (l := rest)
    generalize rest.takeWhile (isSlash true) = slashes at hsplit ⊢
    generalize rest.dropWhile (isSlash true) = after at hsplit ⊢
    rw [← hsplit, List.drop_left]
  rcases hweb with rfl | rfl
  · exact congrArg (readAuthority rules "http") hdrop
  · exact congrArg (readAuthority rules "https") hdrop

theorem isSpecialScheme_of_web (hweb : scheme = "http" ∨ scheme = "https") :
    isSpecialScheme scheme = true := by
  rcases hweb with rfl | rfl <;> rfl

theorem readText_of_concat (hc : IsTail c) {u : Url} (h : readText rules (s ++ [c]) = .ok u)
    (hweb : u.scheme = "http" ∨ u.scheme = "https") :
    ∃ u', readText rules s = .ok u' ∧ u'.scheme = u.scheme := by
  unfold readText at h ⊢
  cases hscheme : takeScheme (s ++ [c]) with
  | none =>
    rw [hscheme] at h
    cases h
  | some e =>
    obtain ⟨scheme, rest⟩ := e
    rw [hscheme] at h
    dsimp only at h
    obtain ⟨rest, hscheme', rfl⟩ := takeScheme_of_concat hc hscheme
    rw [hscheme']
    dsimp only
    have hsame := readAfterScheme_scheme h
    rw [hsame] at hweb ⊢
    have hspecial := isSpecialScheme_of_web hweb
    rw [readAfterScheme_of_web hweb] at h ⊢
    obtain ⟨after, hauthority⟩ := isAuthority_of_ok hspecial h
    obtain ⟨after', hauthority'⟩ := dropSlashes_of_concat hc hauthority
    obtain ⟨u', host, names, hu', hscheme', -⟩ := hauthority'.ok hspecial
    exact ⟨u', hu', hscheme'⟩

theorem readText_of_append {dropped : List Char} (hdropped : ∀ c ∈ dropped, IsTail c) {u : Url}
    (h : readText rules (s ++ dropped) = .ok u) (hweb : u.scheme = "http" ∨ u.scheme = "https") :
    ∃ u', readText rules s = .ok u' ∧ u'.scheme = u.scheme := by
  induction dropped using List.reverseRecOn generalizing u with
  | nil =>
    rw [List.append_nil] at h
    exact ⟨u, h, rfl⟩
  | append_singleton dropped c ih =>
    rw [← List.append_assoc] at h
    have hc := hdropped c (List.mem_append_right _ List.mem_cons_self)
    obtain ⟨u', hu', hscheme⟩ := readText_of_concat hc h hweb
    rw [← hscheme] at hweb ⊢
    exact ih (fun d hd => hdropped d (List.mem_append_left _ hd)) hu' hweb

theorem read_of_isAuthority {text : String} {after rest : List Char}
    (hscheme : takeScheme (essence text) = some (scheme, after))
    (hweb : scheme = "http" ∨ scheme = "https")
    (h : IsAuthority rules scheme (after.dropWhile (isSlash true)) rest) :
    ∃ u, read rules text = .ok u ∧ u.scheme = scheme := by
  obtain ⟨u, -, -, hu, hsame, -⟩ := h.ok (isSpecialScheme_of_web hweb)
  refine ⟨u, ?_, hsame⟩
  rw [read_eq, readText, hscheme]
  exact (readAfterScheme_of_web hweb after).trans hu

theorem hasHost_of_readSpecial {name : List Char} {host : Host} {u : Url}
    (h : Host.readSpecial rules name = .ok host) (hu : u.host = some host) : u.hasHost = true := by
  have hnonempty : host ≠ .domain "" := by
    rintro rfl
    unfold Host.readSpecial at h
    split at h
    next inside _ =>
      cases inside with
      | error f => cases h
      | ok inside =>
        change (Host.readIpv6 inside >>= fun pieces => pure (Host.ipv6 pieces)) = _ at h
        cases hpieces : Host.readIpv6 inside <;> rw [hpieces] at h <;> cases h
    next =>
      split at h
      next => cases h
      next => cases h
      next ascii hnonempty _ =>
        split at h
        next => cases haddress : Host.readIpv4 ascii <;> rw [haddress] at h <;> cases h
        next => exact hnonempty (String.ofList_eq_empty_iff.1 (Host.domain.inj (Except.ok.inj h)))
  rw [hasHost, hu, Option.isSome_some, Bool.true_and]
  exact bne_iff_ne.2 fun hempty => hnonempty (Option.some.inj hempty)

/-- Whatever can be read as a web address has a host, and a path that is a hierarchy. -/
theorem isWeb_of_readText {u : Url} (h : readText rules s = .ok u)
    (hweb : u.scheme = "http" ∨ u.scheme = "https") : u.IsWeb := by
  unfold readText at h
  split at h
  next scheme rest _ =>
    have hsame := readAfterScheme_scheme h
    have hscheme : scheme = "http" ∨ scheme = "https" := hsame ▸ hweb
    have hspecial := isSpecialScheme_of_web hscheme
    rw [readAfterScheme_of_web hscheme] at h
    obtain ⟨after, hauthority⟩ := isAuthority_of_ok hspecial h
    obtain ⟨u', host, names, hu', -, hhost, hread, hpath⟩ := hauthority.ok hspecial
    obtain rfl : u = u' := Except.ok.inj (h.symm.trans hu')
    exact ⟨hweb, hasHost_of_readSpecial hread hhost, names, hpath⟩
  next => cases h

end Url

theorem Text.strip_append_slashes {p : Char → Bool} (hp : ∀ c, p c = true ↔ IsBare c)
    (s : List Char) {slashes : List Char} (hslashes : ∀ c ∈ slashes, c = '/') :
    ∃ dropped, Text.strip p (s ++ slashes) = Text.strip p s ++ dropped ∧
      ∀ c ∈ dropped, IsTail c := by
  have hslash : p '/' = false := by
    rw [Bool.eq_false_iff, ne_eq, hp]
    exact Nat.not_le.2 (by decide)
  rcases List.eq_nil_or_concat slashes with rfl | ⟨before, c, rfl⟩
  · exact ⟨[], by rw [List.append_nil, List.append_nil], fun c hc => absurd hc List.not_mem_nil⟩
  · obtain rfl : c = '/' := hslashes c (by simp)
    have hkept : (before.concat '/').dropWhile p = before.concat '/' := by
      cases before with
      | nil => exact List.dropWhile_cons_of_neg (by simp [hslash])
      | cons d before =>
        obtain rfl : d = '/' := hslashes d (by simp)
        exact List.dropWhile_cons_of_neg (by simp [hslash])
    have hfront : (s ++ before.concat '/').dropWhile p = s.dropWhile p ++ before ++ ['/'] := by
      rw [List.dropWhile_append, hkept, List.concat_eq_append, List.append_assoc]
      split
      next hempty => rw [List.isEmpty_iff.1 hempty, List.nil_append]
      next => rfl
    obtain ⟨blanks, hblanks, hbare⟩ := Text.dropRight_append p (s.dropWhile p)
    refine ⟨blanks ++ before ++ ['/'], ?_, fun c hc => ?_⟩
    · rw [Text.strip, hfront, Text.dropRight_of_not hslash, Text.strip]
      conv => lhs; rw [hblanks]
      simp only [List.append_assoc]
    · rw [List.append_assoc, List.mem_append, ← List.concat_eq_append] at hc
      exact hc.imp (fun hc => (hp c).1 (hbare c hc)) (hslashes c)

theorem Url.essence_trimSlashes (text : String) : ∃ dropped,
    Url.essence text = Url.essence (Client.trimSlashes text) ++ dropped ∧
      ∀ c ∈ dropped, IsTail c := by
  obtain ⟨slashes, htext, hslashes⟩ := Text.dropRight_append (· == '/') text.toList
  obtain ⟨dropped, hstrip, hdropped⟩ := Text.strip_append_slashes
    (p := fun c => c.toNat ≤ 0x20) (fun c => decide_eq_true_iff)
    (Text.dropRight (· == '/') text.toList) fun c hc => eq_of_beq (hslashes c hc)
  refine ⟨dropped.filter fun c => !isIgnored c, ?_, fun c hc => hdropped c (List.mem_filter.1 hc).1⟩
  rw [essence, essence, Client.trimSlashes, String.toList_ofList, ← List.filter_append, ← hstrip,
    ← htext]

/-- A web address can be read without the slashes at its end. -/
theorem Url.read_trimSlashes {rules : Domain.Rules} {text : String} {u : Url}
    (h : Url.read rules text = .ok u) (hweb : u.scheme = "http" ∨ u.scheme = "https") :
    ∃ u', Url.read rules (Client.trimSlashes text) = .ok u' ∧ u'.IsWeb := by
  obtain ⟨dropped, hessence, hdropped⟩ := Url.essence_trimSlashes text
  rw [Url.read_eq, hessence] at h
  obtain ⟨u', hu', hscheme⟩ := Url.readText_of_append hdropped h hweb
  rw [← hscheme] at hweb
  exact ⟨u', (Url.read_eq rules _).trans hu', Url.isWeb_of_readText hu' hweb⟩

end LinkRelay
