import Mathlib.Data.List.Nodup

/-!
# JSON texts

The JSON values without arrays and fractions, their compact text, and a reader. `read_render`: the
reader returns the value whose compact text it reads. `Json.Reader` is what a program assumes of a
JSON library: it reads compact texts so; the reader here shows that this can be had.
-/

inductive Json where
  | null
  | bool (b : Bool)
  | num (n : Int)
  | str (s : List Char)
  | obj (fields : List (List Char × Json))

namespace Json

open List Option Nat

/-! ## Texts -/

def hexDigit (n : Nat) : Char := Nat.digitChar n

def escapeChar (c : Char) : List Char :=
  if c = '"' then ['\\', '"']
  else if c = '\\' then ['\\', '\\']
  else if c = '\n' then ['\\', 'n']
  else if c = '\r' then ['\\', 'r']
  else if c = '\t' then ['\\', 't']
  else if c = '\x08' then ['\\', 'b']
  else if c = '\x0c' then ['\\', 'f']
  else if c.toNat < 32 then
    ['\\', 'u', '0', '0', hexDigit (c.toNat / 16), hexDigit (c.toNat % 16)]
  else [c]

def escape (s : List Char) : List Char := s.flatMap escapeChar

def quote (s : List Char) : List Char := '"' :: escape s ++ ['"']

def renderInt (n : Int) : List Char :=
  match n with
  | .ofNat m => Nat.toDigits 10 m
  | .negSucc m => '-' :: Nat.toDigits 10 (m + 1)

mutual

def render : Json → List Char
  | null => ['n', 'u', 'l', 'l']
  | bool true => ['t', 'r', 'u', 'e']
  | bool false => ['f', 'a', 'l', 's', 'e']
  | num n => renderInt n
  | str s => quote s
  | obj fields => '{' :: renderFields fields ++ ['}']

def renderFields : List (List Char × Json) → List Char
  | [] => []
  | [(key, value)] => quote key ++ ':' :: render value
  | (key, value) :: field :: fields =>
    quote key ++ ':' :: render value ++ ',' :: renderFields (field :: fields)

end

/-! ## Reading -/

def hexValue (c : Char) : Nat :=
  if c.isDigit then c.toNat - '0'.toNat else c.toNat - 'a'.toNat + 10

def readString : List Char → Option (List Char × List Char)
  | '"' :: t => some ([], t)
  | '\\' :: '"' :: t => (readString t).map fun p => ('"' :: p.1, p.2)
  | '\\' :: '\\' :: t => (readString t).map fun p => ('\\' :: p.1, p.2)
  | '\\' :: 'n' :: t => (readString t).map fun p => ('\n' :: p.1, p.2)
  | '\\' :: 'r' :: t => (readString t).map fun p => ('\r' :: p.1, p.2)
  | '\\' :: 't' :: t => (readString t).map fun p => ('\t' :: p.1, p.2)
  | '\\' :: 'b' :: t => (readString t).map fun p => ('\x08' :: p.1, p.2)
  | '\\' :: 'f' :: t => (readString t).map fun p => ('\x0c' :: p.1, p.2)
  | '\\' :: 'u' :: '0' :: '0' :: a :: b :: t =>
    (readString t).map fun p => (Char.ofNat (16 * hexValue a + hexValue b) :: p.1, p.2)
  | c :: t => (readString t).map fun p => (c :: p.1, p.2)
  | [] => none

def readNat (t : List Char) : Option (Nat × List Char) :=
  let ds := t.takeWhile Char.isDigit
  if ds = [] then none else some (Nat.ofDigitChars 10 ds 0, t.dropWhile Char.isDigit)

def expect (word t : List Char) : Option (List Char) :=
  if word.isPrefixOf t then some (t.drop word.length) else none

mutual

def readValue : Nat → List Char → Option (Json × List Char)
  | 0, _ => none
  | _ + 1, [] => none
  | n + 1, c :: t =>
    if c = 'n' then (expect ['u', 'l', 'l'] t).map fun t => (null, t)
    else if c = 't' then (expect ['r', 'u', 'e'] t).map fun t => (bool true, t)
    else if c = 'f' then (expect ['a', 'l', 's', 'e'] t).map fun t => (bool false, t)
    else if c = '"' then (readString t).map fun p => (str p.1, p.2)
    else if c = '{' then
      (expect ['}'] t).elim ((readFields n t).map fun p => (obj p.1, p.2)) fun t =>
        some (obj [], t)
    else if c = '-' then (readNat t).map fun p => (num (-p.1), p.2)
    else (readNat (c :: t)).map fun p => (num p.1, p.2)

def readFields : Nat → List Char → Option (List (List Char × Json) × List Char)
  | 0, _ => none
  | n + 1, t => do
    let t ← expect ['"'] t
    let (key, t) ← readString t
    let t ← expect [':'] t
    let (value, t) ← readValue n t
    match expect ['}'] t with
    | some t => some ([(key, value)], t)
    | none =>
      let t ← expect [','] t
      let (fields, t) ← readFields n t
      some ((key, value) :: fields, t)

end

def read (t : List Char) : Option Json :=
  match readValue t.length t with
  | some (v, []) => some v
  | _ => none

/-! ## What is read back -/

def EndsNumber (t : List Char) : Prop := ∀ c ∈ t.head?, c.isDigit = false

variable {t : List Char}

theorem readNat_toDigits (n : Nat) (ht : EndsNumber t) :
    readNat (toDigits 10 n ++ t) = some (n, t) := by
  have hdigits : ∀ c ∈ toDigits 10 n, c.isDigit := fun c hc =>
    isDigit_of_mem_toDigits (by decide) (by decide) hc
  have htake : t.takeWhile Char.isDigit = [] ∧ t.dropWhile Char.isDigit = t := by
    cases t with
    | nil => exact ⟨rfl, rfl⟩
    | cons c t =>
      have hc : ¬c.isDigit := Bool.eq_false_iff.mp (ht c rfl)
      exact ⟨takeWhile_cons_of_neg hc, dropWhile_cons_of_neg hc⟩
  unfold readNat
  rw [takeWhile_append_of_pos hdigits, dropWhile_append_of_pos hdigits, htake.1, htake.2,
    append_nil, if_neg toDigits_ne_nil,
    ofDigitChars_toDigits (by decide) (by decide)]

theorem hexValue_hexDigit : ∀ n < 16, hexValue (hexDigit n) = n := by decide

theorem readString_escapeChar (c : Char) (t : List Char) :
    readString (escapeChar c ++ t) = (readString t).map fun p => (c :: p.1, p.2) := by
  unfold escapeChar
  split_ifs with h1 h2 h3 h4 h5 h6 h7 h8
  · rw [h1]
    rfl
  · rw [h2]
    rfl
  · rw [h3]
    rfl
  · rw [h4]
    rfl
  · rw [h5]
    rfl
  · rw [h6]
    rfl
  · rw [h7]
    rfl
  · show (readString t).map _ = _
    rw [hexValue_hexDigit _ (by omega), hexValue_hexDigit _ (by omega), div_add_mod,
      Char.ofNat_toNat]
  · rw [singleton_append, readString.eq_def]
    split <;> simp_all

theorem readString_escape (s t : List Char) : readString (escape s ++ '"' :: t) = some (s, t) := by
  induction s with
  | nil => rfl
  | cons c s ih =>
    rw [escape, flatMap_cons, append_assoc, readString_escapeChar]
    rw [show s.flatMap escapeChar ++ '"' :: t = escape s ++ '"' :: t from rfl, ih]
    rfl

mutual

def fuel : Json → Nat
  | obj fields => fieldsFuel fields + 1
  | _ => 1

def fieldsFuel : List (List Char × Json) → Nat
  | [] => 0
  | (_, value) :: fields => max (fuel value) (fieldsFuel fields) + 1

end

variable {n : Nat}

theorem readValue_digit {c : Char} (hc : c.isDigit) :
    readValue (n + 1) (c :: t) = (readNat (c :: t)).map fun p => (num p.1, p.2) := by
  have hne : ∀ d : Char, d.isDigit = false → c ≠ d := by
    rintro d hd rfl
    exact Bool.false_ne_true (hd.symm.trans hc)
  rw [readValue, if_neg (hne 'n' rfl), if_neg (hne 't' rfl), if_neg (hne 'f' rfl),
    if_neg (hne '"' rfl), if_neg (hne '{' rfl), if_neg (hne '-' rfl)]

theorem readValue_num (k : Int) (n : Nat) (ht : EndsNumber t) :
    readValue (n + 1) (renderInt k ++ t) = some (num k, t) := by
  cases k with
  | ofNat m =>
    have hread := readNat_toDigits m ht
    show readValue (n + 1) (toDigits 10 m ++ t) = _
    rcases hdigits : toDigits 10 m with _ | ⟨c, cs⟩
    · exact absurd hdigits toDigits_ne_nil
    · have hc : c.isDigit := isDigit_of_mem_toDigits (b := 10) (by decide) (by decide)
        (hdigits ▸ mem_cons_self)
      rw [hdigits] at hread
      rw [cons_append, readValue_digit hc, ← cons_append, hread]
      rfl
  | negSucc m =>
    show readValue (n + 1) ('-' :: (toDigits 10 (m + 1) ++ t)) = _
    rw [readValue, if_neg (by decide), if_neg (by decide), if_neg (by decide), if_neg (by decide),
      if_neg (by decide), if_pos rfl, readNat_toDigits (m + 1) ht]
    rfl

theorem quote_append (s t : List Char) : quote s ++ t = '"' :: (escape s ++ '"' :: t) := by
  unfold quote
  rw [cons_append, cons_append, append_assoc, singleton_append]

theorem readValue_str (s : List Char) (n : Nat) (t : List Char) :
    readValue (n + 1) (quote s ++ t) = some (str s, t) := by
  rw [quote_append, readValue, if_neg (by decide), if_neg (by decide), if_neg (by decide),
    if_pos rfl, readString_escape]
  rfl

theorem endsNumber_cons {c : Char} (hc : c.isDigit = false) (t : List Char) :
    EndsNumber (c :: t) := by
  intro d hd
  cases hd
  exact hc

variable {key : List Char}

theorem readFields_last {u : List Char} {value : Json}
    (hvalue : readValue n u = some (value, '}' :: t)) :
    readFields (n + 1) (quote key ++ ':' :: u) = some ([(key, value)], t) := by
  rw [readFields, quote_append]
  simp [expect, readString_escape, hvalue]

theorem readFields_cons {u v : List Char} {value : Json}
    {fields : List (List Char × Json)} (hvalue : readValue n u = some (value, ',' :: v))
    (hfields : readFields n v = some (fields, t)) :
    readFields (n + 1) (quote key ++ ':' :: u) = some ((key, value) :: fields, t) := by
  rw [readFields, quote_append]
  simp [expect, readString_escape, hvalue, hfields]

theorem expect_renderFields (field : List Char × Json) (fields : List (List Char × Json))
    (t : List Char) : expect ['}'] (renderFields (field :: fields) ++ t) = none := by
  cases fields with
  | nil =>
    rw [renderFields, append_assoc, quote_append]
    rfl
  | cons next fields =>
    rw [renderFields, append_assoc, append_assoc, quote_append]
    rfl

mutual

theorem readValue_render : ∀ (v : Json) (n : Nat) (t : List Char), fuel v ≤ n → EndsNumber t →
    readValue n (render v ++ t) = some (v, t)
  | null, n + 1, t, _, _ => rfl
  | bool true, n + 1, t, _, _ => rfl
  | bool false, n + 1, t, _, _ => rfl
  | num k, n + 1, t, _, ht => readValue_num k n ht
  | str s, n + 1, t, _, _ => readValue_str s n t
  | obj [], n + 1, t, _, _ => rfl
  | obj (field :: fields), n + 1, t, hn, _ => by
    have hfields := readFields_render field fields n t (le_of_succ_le_succ hn)
    have htext : render (obj (field :: fields)) ++ t =
        '{' :: (renderFields (field :: fields) ++ '}' :: t) := by
      rw [render, cons_append, cons_append, append_assoc, singleton_append]
    rw [htext, readValue, if_neg (by decide), if_neg (by decide), if_neg (by decide),
      if_neg (by decide), if_pos rfl, expect_renderFields, hfields]
    rfl

theorem readFields_render : ∀ (field : List Char × Json) (fields : List (List Char × Json))
    (n : Nat) (t : List Char), fieldsFuel (field :: fields) ≤ n →
    readFields n (renderFields (field :: fields) ++ '}' :: t) = some (field :: fields, t)
  | (key, value), [], n + 1, t, hn => by
    have hvalue := readValue_render value n ('}' :: t)
      (Nat.le_trans (Nat.le_max_left _ _) (Nat.le_of_succ_le_succ hn)) (endsNumber_cons rfl t)
    rw [renderFields, append_assoc, cons_append]
    exact readFields_last hvalue
  | (key, value), field :: fields, n + 1, t, hn => by
    have hn' := Nat.le_of_succ_le_succ hn
    have hvalue := readValue_render value n (',' :: (renderFields (field :: fields) ++ '}' :: t))
      (Nat.le_trans (Nat.le_max_left _ _) hn') (endsNumber_cons rfl _)
    have hfields := readFields_render field fields n t (Nat.le_trans (Nat.le_max_right _ _) hn')
    rw [renderFields, append_assoc, append_assoc, cons_append, cons_append]
    exact readFields_cons hvalue hfields

end

/-! ## Whole texts -/

theorem one_le_length_quote (s : List Char) : 1 ≤ (quote s).length :=
  le_add_left 1 _

mutual

theorem fuel_le_length : ∀ v : Json, fuel v ≤ (render v).length
  | null => by decide
  | bool true => by decide
  | bool false => by decide
  | num (.ofNat m) => List.length_pos_iff.mpr toDigits_ne_nil
  | num (.negSucc m) => le_add_left 1 _
  | str s => one_le_length_quote s
  | obj fields => by
    have hfields := fieldsFuel_le_length fields
    rw [fuel, render, cons_append, length_cons, length_append]
    omega

theorem fieldsFuel_le_length : ∀ fields : List (List Char × Json),
    fieldsFuel fields ≤ (renderFields fields).length
  | [] => zero_le _
  | [(key, value)] => by
    have hvalue := fuel_le_length value
    have hkey := one_le_length_quote key
    rw [fieldsFuel, fieldsFuel, renderFields, length_append, length_cons]
    omega
  | (key, value) :: field :: fields => by
    have hvalue := fuel_le_length value
    have hfields := fieldsFuel_le_length (field :: fields)
    rw [fieldsFuel, renderFields, length_append, length_append, length_cons, length_cons]
    omega

end

theorem read_render (v : Json) : read (render v) = some v := by
  have hread := readValue_render v (render v).length [] (fuel_le_length v) (fun _ h => nomatch h)
  rw [append_nil] at hread
  unfold read
  rw [hread]

/-! ## Objects with optional members -/

def ofOptions (members : List (List Char × Option Json)) : Json :=
  obj (members.filterMap fun member => member.2.map (Prod.mk member.1))

def get? (key : List Char) : Json → Option Json
  | obj fields => (fields.reverse.find? fun field => field.1 == key).map Prod.snd
  | _ => none

theorem find?_reverse_of_unique {fields : List (List Char × Json)} {field : List Char × Json}
    (hmem : field ∈ fields) (hunique : ∀ other ∈ fields, other.1 = field.1 → other = field) :
    (fields.reverse.find? fun other => other.1 == field.1) = some field := by
  have hsome : (fields.reverse.find? fun other => other.1 == field.1).isSome :=
    find?_isSome.mpr ⟨field, mem_reverse.mpr hmem, beq_self_eq_true _⟩
  obtain ⟨other, hother⟩ := isSome_iff_exists.mp hsome
  have hkey := find?_some hother
  rw [hother, hunique other (mem_reverse.mp (mem_of_find?_eq_some hother))
    (beq_iff_eq.mp hkey)]

theorem get?_ofOptions {members : List (List Char × Option Json)}
    {value : Option Json} (hkeys : (members.map Prod.fst).Nodup) (hmem : (key, value) ∈ members) :
    (ofOptions members).get? key = value := by
  have hentry : ∀ o, (key, o) ∈ members → o = value := fun o ho =>
    congrArg Prod.snd (inj_on_of_nodup_map hkeys ho hmem rfl)
  have hfields : ∀ field, field ∈ members.filterMap (fun member =>
      member.2.map (Prod.mk member.1)) → (field.1, some field.2) ∈ members := by
    rintro ⟨k, v⟩ hfield
    obtain ⟨⟨k', o⟩, hmember, ho⟩ := mem_filterMap.mp hfield
    obtain ⟨v', rfl, heq⟩ := map_eq_some_iff.mp ho
    cases heq
    exact hmember
  unfold ofOptions get?
  dsimp only
  cases value with
  | none =>
    rw [find?_eq_none.mpr, map_none]
    intro field hfield hkey
    have hmember := hfields field (mem_reverse.mp hfield)
    rw [beq_iff_eq.mp hkey] at hmember
    cases hentry _ hmember
  | some v =>
    have hfield : (key, v) ∈ members.filterMap fun member =>
        member.2.map (Prod.mk member.1) :=
      mem_filterMap.mpr ⟨(key, some v), hmem, rfl⟩
    rw [find?_reverse_of_unique hfield, map_some]
    rintro ⟨k, v'⟩ hother hkey
    have hmember := hfields _ hother
    dsimp only at hkey hmember
    subst hkey
    rw [Option.some.inj (hentry _ hmember)]

/-! ## The text of an object, field by field -/

def renderField (field : List Char × Json) : List Char := quote field.1 ++ ':' :: render field.2

theorem renderFields_cons (field : List Char × Json) (fields : List (List Char × Json)) :
    renderFields (field :: fields) =
      renderField field ++ fields.flatMap fun next => ',' :: renderField next := by
  induction fields generalizing field with
  | nil => rw [renderFields, flatMap_nil, append_nil, renderField]
  | cons next fields ih =>
    rw [renderFields, ih, flatMap_cons]
    simp only [renderField, append_assoc, cons_append]

def moreFields (members : List (List Char × Option Json)) : List Char :=
  members.flatMap fun member => member.2.elim [] fun value => ',' :: renderField (member.1, value)

theorem moreFields_append (members members' : List (List Char × Option Json)) :
    moreFields (members ++ members') = moreFields members ++ moreFields members' :=
  flatMap_append

theorem moreFields_eq (members : List (List Char × Option Json)) :
    moreFields members = (members.filterMap fun member => member.2.map (Prod.mk member.1)).flatMap
      fun field => ',' :: renderField field := by
  induction members with
  | nil => rfl
  | cons member members ih =>
    obtain ⟨key, value⟩ := member
    unfold moreFields at ih ⊢
    rw [flatMap_cons, ih]
    cases value <;> rfl

theorem render_ofOptions (key : List Char) (value : Json)
    (members : List (List Char × Option Json)) : render (ofOptions ((key, some value) :: members)) =
      '{' :: (renderField (key, value) ++ (moreFields members ++ ['}'])) := by
  show render (obj ((key, value) :: members.filterMap fun member =>
    member.2.map (Prod.mk member.1))) = _
  rw [render, renderFields_cons, ← moreFields_eq, cons_append, append_assoc]

/-! ## Numbers and texts -/

def ofUInt64 (n : UInt64) : Json := num n.toNat

def ofInt32 (n : Int32) : Json := num n.toInt

def asUInt64? : Json → Option UInt64
  | num (.ofNat n) => if n < UInt64.size then some (UInt64.ofNat n) else none
  | _ => none

def asInt32? : Json → Option Int32
  | num n =>
    if Int32.minValue.toInt ≤ n ∧ n ≤ Int32.maxValue.toInt then some (Int32.ofInt n) else none
  | _ => none

def asBool? : Json → Option Bool
  | bool b => some b
  | _ => none

def asStr? : Json → Option (List Char)
  | str s => some s
  | _ => none

def asOption? {α : Type} (read : Json → Option α) : Json → Option (Option α)
  | null => some none
  | v => (read v).map some

theorem asUInt64?_ofUInt64 (n : UInt64) : asUInt64? (ofUInt64 n) = some n := by
  show (if n.toNat < UInt64.size then _ else _) = _
  rw [if_pos n.toNat_lt_size, UInt64.ofNat_toNat]

theorem asInt32?_ofInt32 (n : Int32) : asInt32? (ofInt32 n) = some n := by
  unfold asInt32? ofInt32
  dsimp only
  rw [if_pos ⟨n.minValue_le_toInt, n.toInt_le⟩, Int32.ofInt_toInt]

/-! ## Reading with a library -/

inductive Fits : Nat → Json → Prop
  | null (d : Nat) : Fits d null
  | bool (d : Nat) (b : Bool) : Fits d (bool b)
  | num (d : Nat) (n : Int) (hmin : Int64.minValue.toInt ≤ n) (hmax : n < UInt64.size) :
      Fits d (num n)
  | str (d : Nat) (s : List Char) : Fits d (str s)
  | obj (d : Nat) (fields : List (List Char × Json)) (h : ∀ field ∈ fields, Fits d field.2) :
      Fits (d + 1) (obj fields)

structure Reader where
  fromStr : List Char → Option Json
  fromStr_render : ∀ v, Fits 127 v → fromStr (render v) = some v

def Reader.plain : Reader := ⟨read, fun v _ => read_render v⟩

theorem fits_ofUInt64 (d : Nat) (n : UInt64) : Fits d (ofUInt64 n) := by
  refine .num d _ ?_ (Int.ofNat_lt.mpr n.toNat_lt_size)
  exact Int.le_trans (by decide) (Int.natCast_nonneg n.toNat)

theorem fits_ofInt32 (d : Nat) (n : Int32) : Fits d (ofInt32 n) := by
  refine .num d _ ?_ ?_
  · exact Int.le_trans (by decide) n.minValue_le_toInt
  · exact Int.lt_of_le_of_lt n.toInt_le (by decide)

theorem fits_ofOptions {d : Nat} {members : List (List Char × Option Json)}
    (h : ∀ key value, (key, some value) ∈ members → Fits d value) :
    Fits (d + 1) (ofOptions members) := by
  refine .obj d _ fun field hfield => ?_
  obtain ⟨⟨key, o⟩, hmem, ho⟩ := mem_filterMap.mp hfield
  obtain ⟨value, rfl, rfl⟩ := map_eq_some_iff.mp ho
  exact h key value hmem

end Json
