import ReliableNotifier.Library.SortedMap

/-! # Headers of a request

The part of `net/http` that keeps the headers of a request: `Header.Set` puts a value under
the canonical form of its name, which changes nothing but the case of ASCII letters.
-/

namespace Http

/-- What may stand in the name of a header. -/
def isTokenChar (c : Char) : Bool := c.isAlphanum || "!#$%&'*+-.^_`|~".toList.contains c

def IsToken (name : String) : Prop := name ≠ "" ∧ ∀ c ∈ name.toList, isTokenChar c = true

instance (name : String) : Decidable (IsToken name) :=
  decidable_of_iff (name ≠ "" ∧ name.toList.all isTokenChar = true) (by rw [IsToken, List.all_eq_true])

/-- The first letter and every letter behind a hyphen in upper case, the others in lower case. -/
def capitalize (upper : Bool) : List Char → List Char
  | [] => []
  | c :: rest => (if upper then c.toUpper else c.toLower) :: capitalize (c = '-') rest

/-- `textproto.CanonicalMIMEHeaderKey`, which leaves a name alone that is not made of token characters. -/
def canonicalMIMEHeaderKey (name : String) : String :=
  if name.toList.all isTokenChar then String.ofList (capitalize true name.toList) else name

/-- `http.Header` with one value under each name, as `Set` leaves it. -/
abbrev Header := SortedMap String String

/-- `Header.Set`. -/
def Header.set (header : Header) (name value : String) : Header := header.insert (canonicalMIMEHeaderKey name) value

theorem toLower_of_not_ascii {c : Char} (h : ¬c.toNat < 128) : c.toLower = c ∧ c.toUpper = c := by
  have hLarge (d : Char) (hd : d.toNat < 128) : ¬c.val ≤ d.val := fun hLess => h (Nat.lt_of_le_of_lt hLess hd)
  exact ⟨dif_neg fun hCapital => hLarge 'Z' (by decide) hCapital.2,
    dif_neg fun hSmall => hLarge 'z' (by decide) hSmall.2⟩

theorem toLower_toUpper (c : Char) : c.toUpper.toLower = c.toLower ∧ c.toLower.toLower = c.toLower := by
  by_cases h : c.toNat < 128
  · have hAscii : ∀ n < 128, (Char.ofNat n).toUpper.toLower = (Char.ofNat n).toLower ∧
        (Char.ofNat n).toLower.toLower = (Char.ofNat n).toLower := by
      decide
    have hHere := hAscii c.toNat h
    rwa [Char.ofNat_toNat] at hHere
  · obtain ⟨hLower, hUpper⟩ := toLower_of_not_ascii h
    rw [hUpper, hLower, hLower]
    exact ⟨rfl, rfl⟩

theorem map_toLower_capitalize {upper : Bool} {name : List Char} :
    (capitalize upper name).map Char.toLower = name.map Char.toLower := by
  induction name generalizing upper with
  | nil => rfl
  | cons c rest ih =>
    rw [capitalize, List.map_cons, List.map_cons, ih]
    cases upper
    · rw [if_neg Bool.false_ne_true, (toLower_toUpper c).2]
    · rw [if_pos rfl, (toLower_toUpper c).1]

/-- Names with one canonical form differ in the case of ASCII letters only. -/
theorem toLower_eq_of_canonical {name other : String}
    (h : canonicalMIMEHeaderKey name = canonicalMIMEHeaderKey other) :
    name.toList.map Char.toLower = other.toList.map Char.toLower := by
  have hLower (name : String) :
      (canonicalMIMEHeaderKey name).toList.map Char.toLower = name.toList.map Char.toLower := by
    unfold canonicalMIMEHeaderKey
    split
    · rw [String.toList_ofList, map_toLower_capitalize]
    · rfl
  rw [← hLower name, ← hLower other, h]

end Http
