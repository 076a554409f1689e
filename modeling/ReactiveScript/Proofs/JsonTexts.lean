import ReactiveScript.Proofs.JsonForms
import ReactiveScript.Proofs.Numerals
import Mathlib.Tactic.SplitIfs

/-!
# Reading JSON text back

The text of a tree without decimals is read back as that tree: every character of a text survives
its escape, every 64-bit integer its numeral, and items and entries come in the order in which they
were written. What a reader does on a text is stated with an arbitrary rest behind the text, of
which only matters that it does not continue a number.
-/

namespace ReactiveScript

namespace Json

/-! ### Quoted texts -/

/-- The two last digits of a control character. -/
theorem hexValue4?_hexDigit {k : Nat} (hk : k < 0x20) :
    hexValue4? '0' '0' (hexDigit (k / 16)) (hexDigit (k % 16)) = some k := by
  revert k
  decide

/-- What stands for a character is read as that character. -/
theorem readQuoted_escape (c : Char) (tail : List Char) :
    readQuoted (escape c ++ tail) = (readQuoted tail).map fun (cs, rest) => (c :: cs, rest) := by
  unfold escape
  split_ifs with quote backslash back feed line carriage tab control
  · subst quote; rfl
  · subst backslash; rfl
  · subst back; rfl
  · subst feed; rfl
  · subst line; rfl
  · subst carriage; rfl
  · subst tab; rfl
  · have low : isLowSurrogate c.toNat = false := by
      simp only [isLowSurrogate, Bool.and_eq_false_iff, decide_eq_false_iff_not]
      omega
    have high : isHighSurrogate c.toNat = false := by
      simp only [isHighSurrogate, Bool.and_eq_false_iff, decide_eq_false_iff_not]
      omega
    simp only [List.cons_append, List.nil_append, readQuoted, hexValue4?_hexDigit control, low,
      high, Char.ofNat_toNat, Bool.false_eq_true, if_false]
  · rw [List.singleton_append, readQuoted, if_neg]
    · simp [backslash, control]
    · exact quote
    · exact fun _ _ _ _ _ h => absurd h backslash
    · exact fun _ _ h => absurd h backslash

theorem readQuoted_flatMap_escape (cs rest : List Char) :
    readQuoted (cs.flatMap escape ++ '"' :: rest) = some (cs, rest) := by
  induction cs with
  | nil => rfl
  | cons c cs ih =>
    rw [List.flatMap_cons, List.append_assoc, readQuoted_escape, ih]
    rfl

/-! ### Items between brackets -/

/-- A character with which the text of a value may start: no blank and none that ends a sequence. -/
def startsValue (c : Char) : Bool := !isBlank c && c != ']' && c != '\x7d'

/-- A reader reads back what is written for an item, whatever follows that does not continue it. -/
structure Reads {α : Type} (item : Reader α) (write : α → List Char) (x : α) : Prop where
  starts : ∃ c cs, write x = c :: cs ∧ startsValue c
  reads : ∀ rest, Delimits rest → item (write x ++ rest) = some (x, rest)

section sequences

variable {α : Type} (write : α → List Char) (close : Char)

/-- Items, a comma before each of them, and a closing character. -/
def writeItems : List α → List Char
  | [] => [close]
  | x :: xs => ',' :: write x ++ writeItems xs

/-- Items with commas between them and a closing character. -/
def writeSequence : List α → List Char
  | [] => [close]
  | x :: xs => write x ++ writeItems write close xs

theorem length_lt_writeItems (xs : List α) : xs.length < (writeItems write close xs).length := by
  induction xs with
  | nil => exact Nat.one_pos
  | cons x xs ih =>
    simp only [writeItems, List.length_cons, List.length_append]
    omega

variable {write close} {item : Reader α}

theorem skipBlanks_cons {c : Char} (h : isBlank c = false) (cs : List Char) :
    skipBlanks (c :: cs) = c :: cs := by
  simp [skipBlanks, h]

theorem skipBlanks_of_starts {c : Char} (h : startsValue c) (cs : List Char) :
    skipBlanks (c :: cs) = c :: cs := by
  simp only [startsValue, Bool.and_eq_true, Bool.not_eq_true'] at h
  exact skipBlanks_cons h.1.1 cs

variable (closes : close = ']' ∨ close = '\x7d')
include closes

theorem delimits_writeItems (xs : List α) (rest : List Char) :
    Delimits (writeItems write close xs ++ rest) := by
  cases xs with
  | nil => rcases closes with rfl | rfl <;> exact delimits_cons (by decide) rest
  | cons x xs => exact delimits_cons (by decide) _

theorem skipBlanks_close (rest : List Char) : skipBlanks (close :: rest) = close :: rest := by
  rcases closes with rfl | rfl <;> exact skipBlanks_cons (by decide) rest

theorem readItems_writeItems {x : α} {xs : List α} (written : ∀ y ∈ x :: xs, Reads item write y)
    {fuel : Nat} (enough : xs.length < fuel) (rest : List Char) :
    readItems item close fuel (write x ++ (writeItems write close xs ++ rest)) =
      some (x :: xs, rest) := by
  -- each item takes one unit of the fuel
  induction xs generalizing x fuel with
  | nil =>
    cases fuel with
    | zero => cases enough
    | succ fuel =>
      rw [readItems, (written x List.mem_cons_self).reads _ (delimits_writeItems closes [] rest)]
      simp [writeItems, skipBlanks_close closes]
  | cons y ys ih =>
    cases fuel with
    | zero => cases enough
    | succ fuel =>
      have next := ih (fun z hz => written z (List.mem_cons_of_mem x hz))
        (Nat.lt_of_succ_lt_succ enough)
      have other : ',' ≠ close := by rcases closes with rfl | rfl <;> decide
      have comma : skipBlanks (writeItems write close (y :: ys) ++ rest) =
          ',' :: (write y ++ (writeItems write close ys ++ rest)) := by
        simp only [writeItems, List.cons_append, List.append_assoc]
        exact skipBlanks_cons (by decide) _
      rw [readItems, (written x List.mem_cons_self).reads _ (delimits_writeItems closes _ rest)]
      simp [comma, other, next]

/-- The items of an array or an object are read back in their order. -/
theorem readSequence_writeSequence {xs : List α} (written : ∀ x ∈ xs, Reads item write x)
    (rest : List Char) :
    readSequence item close (writeSequence write close xs ++ rest) = some (xs, rest) := by
  cases xs with
  | nil =>
    simp only [writeSequence, List.singleton_append, readSequence, skipBlanks_close closes, if_true]
  | cons x xs =>
    obtain ⟨c, cs, text, starts⟩ := (written x List.mem_cons_self).starts
    have other : c ≠ close := by
      simp only [startsValue, Bool.and_eq_true, bne_iff_ne] at starts
      rcases closes with rfl | rfl
      · exact starts.1.2
      · exact starts.2
    have tail : writeSequence write close (x :: xs) ++ rest =
        c :: (cs ++ (writeItems write close xs ++ rest)) := by
      rw [writeSequence, text, List.append_assoc, List.cons_append]
    have enough : xs.length < (cs ++ (writeItems write close xs ++ rest)).length.succ := by
      have := length_lt_writeItems write close xs
      simp only [List.length_append]
      omega
    have whole := readItems_writeItems closes written enough rest
    rw [text, List.cons_append] at whole
    simp only [tail, readSequence, skipBlanks_of_starts starts, if_neg other, whole]

end sequences

/-! ### Values without parts -/

section scalars

variable {c d : Char} {depth : Nat}

/-- A character with which a numeral starts. -/
def startsNumeral (c : Char) : Bool := c == '-' || c.isDigit

theorem ne_of_startsNumeral (h : startsNumeral c) (other : startsNumeral d = false) : c ≠ d := by
  rintro rfl
  rw [h] at other
  cases other

theorem startsValue_of_startsNumeral (h : startsNumeral c) : startsValue c := by
  have ne := fun d => ne_of_startsNumeral (d := d) h
  simp [startsValue, isBlank, ne ' ' rfl, ne '\n' rfl, ne '\t' rfl, ne '\r' rfl, ne ']' rfl,
    ne '\x7d' rfl]

theorem startsNumeral_ofInt (n : Int) :
    ∃ c cs, (Text.ofInt n).toList = c :: cs ∧ startsNumeral c := by
  rw [Text.ofInt, String.toList_ofList]
  split
  · exact ⟨_, _, rfl, rfl⟩
  · cases digits : Nat.toDigits 10 n.natAbs with
    | nil => exact absurd digits Nat.toDigits_ne_nil
    | cons c cs =>
      have digit : c.isDigit := Text.isDigit_of_mem_toDigits (digits ▸ List.mem_cons_self)
      exact ⟨c, cs, rfl, by simp [startsNumeral, digit]⟩

/-- What starts neither an array nor an object is read at any depth. -/
theorem readTree_cons (starts : startsValue c) (bracket : c ≠ '[') (brace : c ≠ '\x7b')
    (cs : List Char) : readTree depth (c :: cs) = readScalar (c :: cs) := by
  cases depth with
  | zero => rw [readTree, skipBlanks_of_starts starts]
  | succ depth =>
    rw [readTree, skipBlanks_of_starts starts]
    split
    · next h => exact absurd (List.cons.inj h).1 bracket
    · next h => exact absurd (List.cons.inj h).1 brace
    · rfl

theorem readScalar_cons (h : startsNumeral c) (cs : List Char) :
    readScalar (c :: cs) = readNumber (c :: cs) := by
  have ne := fun d => ne_of_startsNumeral (d := d) h
  rw [readScalar]
  · exact fun _ other => ne 'n' rfl (List.cons.inj other).1
  · exact fun _ other => ne 't' rfl (List.cons.inj other).1
  · exact fun _ other => ne 'f' rfl (List.cons.inj other).1
  · exact fun _ other => ne '"' rfl (List.cons.inj other).1

end scalars

end Json

namespace JsonTree

open Json

/-- A tree without decimals whose integers have 64 bits, whose objects have no key twice, and which
nests at most so many levels of arrays and objects. -/
inductive Plain : Nat → JsonTree → Prop
  | null {depth : Nat} : Plain depth null
  | bool {depth : Nat} (b : Bool) : Plain depth (bool b)
  | int {depth : Nat} {n : Int} (h : Text.fitsInt64 n) : Plain depth (int n)
  | str {depth : Nat} (s : String) : Plain depth (str s)
  | arr {depth : Nat} {items : List JsonTree} (h : ∀ t ∈ items, Plain depth t) :
    Plain (depth + 1) (arr items)
  | obj {depth : Nat} {entries : OrderedMap JsonTree} (unique : entries.UniqueKeys)
      (h : ∀ t ∈ entries.values, Plain depth t) : Plain (depth + 1) (obj entries)

/-- The text of an entry of an object. -/
def printEntry (e : String × JsonTree) : List Char := quote e.1 ++ ':' :: e.2.print

theorem printItems_eq (items : List JsonTree) : printItems items = writeItems print ']' items := by
  induction items with
  | nil => rfl
  | cons t rest ih => rw [printItems, writeItems, ih]

theorem printEntries_eq (entries : List (String × JsonTree)) :
    printEntries entries = writeItems printEntry '\x7d' entries := by
  induction entries with
  | nil => rfl
  | cons e rest ih =>
    obtain ⟨key, t⟩ := e
    simp [printEntries, writeItems, printEntry, ih]

theorem print_arr (items : List JsonTree) :
    (arr items).print = '[' :: writeSequence print ']' items := by
  cases items with
  | nil => rfl
  | cons t rest => rw [print, writeSequence, printItems_eq, List.cons_append]

theorem print_obj (entries : List (String × JsonTree)) :
    (obj entries).print = '\x7b' :: writeSequence printEntry '\x7d' entries := by
  cases entries with
  | nil => rfl
  | cons e rest =>
    obtain ⟨key, t⟩ := e
    simp [print, writeSequence, printEntry, printEntries_eq]

variable {depth : Nat} {t : JsonTree}

theorem reads_entry {value : Reader JsonTree} (key : String) (h : Reads value print t) :
    Reads (readEntry value) printEntry (key, t) where
  starts := ⟨_, _, rfl, rfl⟩
  reads rest follows := by
    have text : printEntry (key, t) ++ rest =
        '"' :: (key.toList.flatMap escape ++ '"' :: ':' :: (t.print ++ rest)) := by
      simp [printEntry, quote]
    have read := h.reads rest follows
    simp only [text, readEntry, skipBlanks_cons (c := '"') rfl, readQuoted_flatMap_escape,
      Option.bind_eq_bind, Option.bind_some, skipBlanks_cons (c := ':') rfl, read,
      String.ofList_toList]
    rfl

/-- The text of a plain tree is read back as the tree. -/
theorem Plain.reads (h : Plain depth t) : Reads (readTree depth) print t := by
  -- the depth that is left to the reader falls with every bracket, as that of the tree does
  induction h with
  | null =>
    refine ⟨⟨_, _, rfl, rfl⟩, fun rest _ => ?_⟩
    exact readTree_cons rfl (by decide) (by decide) _
  | bool b =>
    cases b with
    | true =>
      refine ⟨⟨_, _, rfl, rfl⟩, fun rest _ => ?_⟩
      exact readTree_cons rfl (by decide) (by decide) _
    | false =>
      refine ⟨⟨_, _, rfl, rfl⟩, fun rest _ => ?_⟩
      exact readTree_cons rfl (by decide) (by decide) _
  | @int depth n fits =>
    obtain ⟨c, cs, text, starts⟩ := startsNumeral_ofInt n
    refine ⟨⟨c, cs, text, startsValue_of_startsNumeral starts⟩, fun rest follows => ?_⟩
    have number := readNumber_ofInt fits follows
    rw [text, List.cons_append] at number
    rw [print, text, List.cons_append, readTree_cons (startsValue_of_startsNumeral starts)
      (ne_of_startsNumeral starts rfl) (ne_of_startsNumeral starts rfl),
      readScalar_cons starts, number]
  | str s =>
    refine ⟨⟨_, _, rfl, rfl⟩, fun rest _ => ?_⟩
    have text : (JsonTree.str s).print ++ rest =
        '"' :: (s.toList.flatMap escape ++ '"' :: rest) := by
      simp [print, quote]
    rw [text, readTree_cons rfl (by decide) (by decide), readScalar, readQuoted_flatMap_escape]
    simp only [Option.map_some, String.ofList_toList]
  | arr _ ih =>
    refine ⟨⟨_, _, print_arr _, rfl⟩, fun rest _ => ?_⟩
    rw [print_arr, List.cons_append, readTree, skipBlanks_cons rfl]
    simp only [readSequence_writeSequence (.inl rfl) ih, Option.map_some]
  | @obj depth entries unique _ ih =>
    have written : ∀ e ∈ entries, Reads (readEntry (readTree depth)) printEntry e :=
      fun e he => reads_entry e.1 (ih e.2 (List.mem_map_of_mem he))
    refine ⟨⟨_, _, print_obj _, rfl⟩, fun rest _ => ?_⟩
    rw [print_obj, List.cons_append, readTree, skipBlanks_cons rfl]
    simp only [readSequence_writeSequence (.inr rfl) written, Option.map_some,
      OrderedMap.ofPairs_of_uniqueKeys unique]

end JsonTree

namespace Value

open JsonTree

mutual

/-- The number of lists and maps that are nested in a value, itself included. -/
def nesting : Value → Nat
  | list items => itemsNesting items + 1
  | map entries => entriesNesting entries + 1
  | tagged v _ => v.nesting
  | _ => 0

def itemsNesting : List Value → Nat
  | [] => 0
  | v :: rest => max v.nesting (itemsNesting rest)

def entriesNesting : List (String × Value) → Nat
  | [] => 0
  | (_, v) :: rest => max v.nesting (entriesNesting rest)

end

theorem nesting_list_le {items : List Value} {depth : Nat} :
    (list items).nesting ≤ depth + 1 ↔ ∀ v ∈ items, v.nesting ≤ depth := by
  rw [nesting, Nat.add_le_add_iff_right]
  induction items with
  | nil => simp [itemsNesting]
  | cons v rest ih => simp [itemsNesting, Nat.max_le, ih]

theorem nesting_map_le {entries : OrderedMap Value} {depth : Nat} :
    (map entries).nesting ≤ depth + 1 ↔ ∀ v ∈ entries.values, v.nesting ≤ depth := by
  rw [nesting, Nat.add_le_add_iff_right]
  induction entries with
  | nil => simp [entriesNesting, OrderedMap.values]
  | cons e rest ih =>
    obtain ⟨key, v⟩ := e
    simp [entriesNesting, Nat.max_le, ih, OrderedMap.values]

variable {v : Value}

end Value
end ReactiveScript
