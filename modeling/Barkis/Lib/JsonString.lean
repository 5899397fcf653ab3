import Barkis.Lib.Numeral

/-!
# JSON string literals

`encoding/json` writes a string as a literal between double quotes (`quote`): the quote and the
backslash are escaped by a backslash; line feed, carriage return and tab by `\n`, `\r` and `\t`;
the other control characters and the HTML characters `<`, `>` and `&` by `\u00XX`; the line and
paragraph separators by `\u2028` and `\u2029`. Decoding a JSON value into a string
(`unmarshalString`) reads such a literal between JSON white space, with the escapes `\"`, `\\`,
`\/`, `\b`, `\f`, `\n`, `\r`, `\t` and `\uXXXX`, where a surrogate pair stands for one character
and a lone surrogate for U+FFFD; `null` leaves the string as it was, empty. Texts are sequences
of characters here, so the bytes of invalid UTF-8 are not modelled.

Decoding reads back what encoding writes (`unmarshalString_quote`), one escape at a time
(`unquote_escape`).
-/

namespace Barkis.JsonString

open Numeral

/-- The escape `encodeState.string` writes for one character, HTML characters escaped.
`'\x22'` is the double quote and `'\x5c'` the backslash. -/
def escape (c : Char) : List Char :=
  if c = '\x22' ∨ c = '\x5c' then ['\x5c', c]
  else if c = '\n' then ['\x5c', 'n']
  else if c = '\r' then ['\x5c', 'r']
  else if c = '\t' then ['\x5c', 't']
  else if c.toNat < 0x20 ∨ c = '<' ∨ c = '>' ∨ c = '&' then
    ['\x5c', 'u', '0', '0', (c.toNat / 16).digitChar, (c.toNat % 16).digitChar]
  else if c.toNat = 0x2028 ∨ c.toNat = 0x2029 then ['\x5c', 'u', '2', '0', '2', (c.toNat % 16).digitChar]
  else [c]

/-- `json.Marshal` of a string. -/
def quote (s : String) : List Char := '\x22' :: (s.toList.flatMap escape ++ ['\x22'])

/-- The character of a one-letter escape. -/
def escapeChar (e : Char) : Option Char :=
  if e = '\x22' ∨ e = '\x5c' ∨ e = '/' then some e
  else if e = 'b' then some '\x08'
  else if e = 'f' then some '\x0c'
  else if e = 'n' then some '\n'
  else if e = 'r' then some '\r'
  else if e = 't' then some '\t'
  else none

/-- `getu4`: four hex digits. -/
def hex4 (a b c d : Char) : Option Nat := digitsFrom 16 0 [a, b, c, d]

/-- A decoded character in front of the rest of the decoding. -/
def cons (c : Char) (r : Option (List Char × List Char)) : Option (List Char × List Char) :=
  r.map fun p => (c :: p.1, p.2)

/-- `utf16.DecodeRune` of a high and a low surrogate. -/
def pairChar (r r2 : Nat) : Char := Char.ofNat ((r - 0xD800) * 0x400 + (r2 - 0xDC00) + 0x10000)

/-- After a high surrogate `r`, a `\uXXXX` escape of a low one: the character of the pair. -/
def lowSurrogate (r : Nat) : List Char → Option Char
  | g :: h :: a :: b :: d :: f :: _ =>
    if g = '\x5c' ∧ h = 'u' then
      (hex4 a b d f).bind fun r2 =>
        if r < 0xDC00 ∧ 0xDC00 ≤ r2 ∧ r2 < 0xE000 then some (pairChar r r2) else none
    else none
  | _ => none

/-- The text of a string literal after its opening quote, and what follows its closing quote;
`none` where the scanner or `unquote` fails. -/
def unquote : List Char → Option (List Char × List Char)
  | [] => none
  | c :: rest =>
    if c = '\x22' then some ([], rest)
    else if c = '\x5c' then
      match rest with
      | [] => none
      | e :: rest' =>
        if e = 'u' then
          match rest' with
          | a :: b :: d :: f :: rest'' =>
            match hex4 a b d f with
            | none => none
            | some r =>
              if 0xD800 ≤ r ∧ r < 0xE000 then
                -- a surrogate: a high one and a low one make a character, anything else U+FFFD
                match lowSurrogate r rest'' with
                | some ch => cons ch (unquote (rest''.drop 6))
                | none => cons '\uFFFD' (unquote rest'')
              else cons (Char.ofNat r) (unquote rest'')
          | _ => none
        else (escapeChar e).bind fun ch => cons ch (unquote rest')
    else if c.toNat < 0x20 then none
    else cons c (unquote rest)
termination_by l => l.length
decreasing_by all_goals simp only [List.length_cons, List.length_drop]; omega

/-- JSON white space. -/
def isSpace (c : Char) : Bool := c = ' ' ∨ c = '\t' ∨ c = '\n' ∨ c = '\r'

/-- `json.Unmarshal` into a string: the string, or `none` for anything that is not a JSON string
or `null` (the texts of the errors are left out). -/
def unmarshalString (bz : List Char) : Option String :=
  match bz.dropWhile isSpace with
  | [] => none
  | c :: rest =>
    if c = '\x22' then
      (unquote rest).bind fun p => if p.2.all isSpace then some (String.ofList p.1) else none
    else if c = 'n' ∧ rest.take 3 = ['u', 'l', 'l'] ∧ (rest.drop 3).all isSpace then some ""
    else none

/-! ## Decoding what is encoded -/

theorem hex4_byte {n : Nat} (h : n < 256) :
    hex4 '0' '0' (n / 16).digitChar (n % 16).digitChar = some n := by
  have h1 : n / 16 < 16 := by omega
  have h2 : n % 16 < 16 := Nat.mod_lt n (by omega)
  have h0 : digitValue '0' = 0 := by decide
  simp only [hex4, digitsFrom, h0, digitValue_digitChar _ h1, digitValue_digitChar _ h2,
    if_pos (show 0 < 16 by omega), if_pos h1, if_pos h2]
  congr 1
  omega

theorem hex4_separator {n : Nat} (h : n = 0x2028 ∨ n = 0x2029) :
    hex4 '2' '0' '2' (n % 16).digitChar = some n := by
  rcases h with rfl | rfl <;> decide

theorem unquote_escapeChar {e c : Char} (he : e ≠ 'u') (hc : escapeChar e = some c)
    (rest : List Char) : unquote ('\x5c' :: e :: rest) = cons c (unquote rest) := by
  rw [unquote.eq_def]
  simp only [if_neg (show '\x5c' ≠ '\x22' by decide), if_pos, if_neg he, hc, Option.bind_some]

theorem unquote_hex {a b d f : Char} {n : Nat} (hx : hex4 a b d f = some n) (hn : n < 0xD800)
    (rest : List Char) :
    unquote ('\x5c' :: 'u' :: a :: b :: d :: f :: rest) = cons (Char.ofNat n) (unquote rest) := by
  rw [unquote.eq_def]
  simp only [if_neg (show '\x5c' ≠ '\x22' by decide), if_pos, hx,
    if_neg (show ¬(0xD800 ≤ n ∧ n < 0xE000) by omega)]

theorem unquote_plain {c : Char} (h1 : c ≠ '\x22') (h2 : c ≠ '\x5c') (h3 : 0x20 ≤ c.toNat)
    (rest : List Char) : unquote (c :: rest) = cons c (unquote rest) := by
  rw [unquote.eq_def]
  simp only [if_neg h1, if_neg h2, if_neg (show ¬c.toNat < 0x20 by omega)]

/-- One escape decodes to its character. -/
theorem unquote_escape (c : Char) (rest : List Char) :
    unquote (escape c ++ rest) = cons c (unquote rest) := by
  unfold escape
  by_cases h1 : c = '\x22' ∨ c = '\x5c'
  · rw [if_pos h1]
    have hc : escapeChar c = some c := by
      rw [escapeChar, if_pos (h1.elim Or.inl fun h => Or.inr (Or.inl h))]
    exact unquote_escapeChar (by rcases h1 with rfl | rfl <;> decide) hc rest
  rw [if_neg h1]
  by_cases hn : c = '\n'
  · subst hn
    exact unquote_escapeChar (by decide) (by decide) rest
  rw [if_neg hn]
  by_cases hr : c = '\r'
  · subst hr
    exact unquote_escapeChar (by decide) (by decide) rest
  rw [if_neg hr]
  by_cases ht : c = '\t'
  · subst ht
    exact unquote_escapeChar (by decide) (by decide) rest
  rw [if_neg ht]
  by_cases hu : c.toNat < 0x20 ∨ c = '<' ∨ c = '>' ∨ c = '&'
  · -- `\u00XX` of a byte
    rw [if_pos hu]
    have hb : c.toNat < 256 := by
      rcases hu with h | rfl | rfl | rfl
      · omega
      all_goals decide
    rw [List.cons_append, List.cons_append, List.cons_append, List.cons_append, List.cons_append,
      List.cons_append, List.nil_append, unquote_hex (hex4_byte hb) (by omega), Char.ofNat_toNat]
  rw [if_neg hu]
  by_cases hs : c.toNat = 0x2028 ∨ c.toNat = 0x2029
  · rw [if_pos hs]
    rw [List.cons_append, List.cons_append, List.cons_append, List.cons_append, List.cons_append,
      List.cons_append, List.nil_append, unquote_hex (hex4_separator hs) (by omega),
      Char.ofNat_toNat]
  rw [if_neg hs, List.singleton_append]
  exact unquote_plain (fun h => h1 (Or.inl h)) (fun h => h1 (Or.inr h)) (by omega) rest

theorem unquote_flatMap_escape (after : List Char) :
    ∀ s : List Char, unquote (s.flatMap escape ++ '\x22' :: after) = some (s, after)
  | [] => by
    rw [List.flatMap_nil, List.nil_append, unquote.eq_def]
    simp only [if_pos]
  | c :: s => by
    rw [List.flatMap_cons, List.append_assoc, unquote_escape, unquote_flatMap_escape after s]
    rfl

/-- `json.Unmarshal` reads back the string `json.Marshal` writes. -/
theorem unmarshalString_quote (s : String) : unmarshalString (quote s) = some s := by
  have hq : isSpace '\x22' = false := by decide
  rw [unmarshalString, quote, List.dropWhile_cons_of_neg (by simp [hq])]
  simp only [if_pos, unquote_flatMap_escape,
    Option.bind_some, List.all_nil, String.ofList_toList]

end Barkis.JsonString
