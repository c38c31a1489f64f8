import Mathlib.Data.List.DropRight
import Mathlib.Data.List.Infix
import Webserver.HTTP.Cookie

/-! # Cookies by segments

The loop of regular expression searches of `Cookie::fromString` against a
reference that cuts the text at every semicolon and looks at each segment once:
the pair of a segment is read at the first separator that directly follows a
name character. A search from the start of a run of name characters agrees with
the reference at every byte of a segment, so it never crosses a semicolon.
-/

namespace Webserver.HTTP

open Foundation

/-- A cookie pair: a name and a value. -/
abbrev CookiePair := Bytes × Bytes

namespace Cookie

/-- A cookie with the default attributes. -/
def ofPair (pair : CookiePair) : Cookie := { name := pair.1, value := pair.2 }

/-- The pair of a segment of which some bytes are read already: the first
separator directly after a name character divides it, the name is the longest
run of name characters before the separator, the value is the rest. -/
def pairFrom (before : Bytes) : Bytes → Option CookiePair
  | [] => none
  | input :: rest =>
      if input = byte '=' ∧ before.getLast?.any isNameChar then
        some (before.rtakeWhile isNameChar, rest)
      else pairFrom (before ++ [input]) rest

/-- The pair of a segment. -/
def pairOfSegment (segment : Bytes) : Option CookiePair := pairFrom [] segment

/-- The cookies of a text by segments. -/
def bySegments (input : Bytes) : List Cookie :=
  ((input.splitOn (byte ';')).filterMap pairOfSegment).map ofPair

/-! ## The expression at the front of a text -/

/-- What the expression asks for after the name. -/
def afterName (name rest : Bytes) : Option (Bytes × Bytes × Bytes) :=
  match rest with
  | [] => none
  | separator :: rest =>
      if separator = byte '=' then
        Regex.greedyStar isValueChar (fun value suffix => some (name, value, suffix)) [] rest
      else none

theorem matchAt_eq : matchAt = Regex.greedyPlus isNameChar afterName := rfl

theorem isNameChar_ne {input : UInt8} (member : isNameChar input) :
    input ≠ byte '=' ∧ input ≠ byte ';' := by
  refine ⟨?_, ?_⟩ <;> rintro rfl <;> revert member <;> decide

theorem afterName_cons_of_ne {separator : UInt8} (other : separator ≠ byte '=')
    (name rest : Bytes) : afterName name (separator :: rest) = none := if_neg other

theorem afterName_blocked (shorter : Bytes) (symbol : UInt8) (input : Bytes)
    (member : isNameChar symbol) : afterName shorter (symbol :: input) = none :=
  afterName_cons_of_ne (isNameChar_ne member).1 shorter input

/-- What may follow a segment: nothing, or a semicolon. -/
def EndsSegment (tail : Bytes) : Prop := ∀ symbol ∈ tail.head?, symbol = byte ';'

theorem EndsSegment.afterName_eq_none {tail : Bytes} (ends : EndsSegment tail) (name : Bytes) :
    afterName name tail = none := by
  cases tail with
  | nil => rfl
  | cons symbol tail =>
      apply afterName_cons_of_ne
      rw [ends symbol (by simp)]
      decide

/-- After the separator the value goes on to the end of the segment. -/
theorem EndsSegment.afterName_separator {value tail : Bytes} (ends : EndsSegment tail)
    (inside : byte ';' ∉ value) (name : Bytes) :
    afterName name (byte '=' :: (value ++ tail)) = some (name, value, tail) := by
  have members : ∀ symbol ∈ value, isValueChar symbol := by
    intro symbol present
    apply bne_iff_ne.mpr
    rintro rfl
    exact inside present
  have stops : ∀ symbol ∈ tail.head?, ¬ isValueChar symbol := by
    intro symbol present
    rw [ends symbol present]
    decide
  exact Regex.greedyStar_append [] members stops (Or.inl rfl)

/-! ## The search inside a segment -/

theorem rtakeWhile_ne_nil_iff (before : Bytes) :
    before.rtakeWhile isNameChar ≠ [] ↔ before.getLast?.any isNameChar := by
  rcases List.eq_nil_or_concat' before with rfl | ⟨front, last, rfl⟩
  · simp
  · rw [List.rtakeWhile_concat, List.getLast?_concat, Option.any_some]
    by_cases member : isNameChar last
    · simp [member]
    · simp [member]

/-- Name characters that nothing but the end of the segment follows. -/
theorem EndsSegment.search_append {run tail : Bytes} (ends : EndsSegment tail)
    (members : ∀ symbol ∈ run, isNameChar symbol) :
    Regex.search matchAt (run ++ tail) = Regex.search matchAt tail := by
  rw [matchAt_eq]
  refine Regex.search_append_of_none members ?_ afterName_blocked ?_
  · intro symbol present
    rw [ends symbol present]
    decide
  · intro shorter _ _
    exact ends.afterName_eq_none shorter

/-- Name characters that a byte other than a separator ends, or a separator
without a name before it. -/
theorem search_append_cons {run : Bytes} {input : UInt8} (rest : Bytes)
    (members : ∀ symbol ∈ run, isNameChar symbol) (outside : ¬ isNameChar input)
    (nameless : input = byte '=' → run = []) :
    Regex.search matchAt (run ++ input :: rest) = Regex.search matchAt rest := by
  have skip : Regex.search matchAt (input :: rest) = Regex.search matchAt rest :=
    Regex.search_cons_of_none (Regex.greedyPlus_cons_of_not outside rest)
  rw [← skip, matchAt_eq]
  refine Regex.search_append_of_none members ?_ afterName_blocked ?_
  · intro symbol present
    cases present
    exact outside
  · intro shorter nonempty inside
    by_cases separator : input = byte '='
    · rw [nameless separator] at inside
      exact (nonempty (List.suffix_nil.mp inside)).elim
    · exact afterName_cons_of_ne separator shorter rest

/-- **The search in a segment.** From the start of the run of name characters
before any byte of a segment, the search finds the pair of the segment, or goes
on after it. -/
theorem EndsSegment.search_segment {segment tail : Bytes} (ends : EndsSegment tail)
    (inside : byte ';' ∉ segment) (before : Bytes) :
    Regex.search matchAt (before.rtakeWhile isNameChar ++ (segment ++ tail)) =
      match pairFrom before segment with
      | some pair => some (pair.1, pair.2, tail)
      | none => Regex.search matchAt tail := by
  have members : ∀ symbol ∈ before.rtakeWhile isNameChar, isNameChar symbol :=
    fun symbol present => List.mem_rtakeWhile_imp present
  induction segment generalizing before with
  | nil => exact ends.search_append members
  | cons input rest ih =>
      have later : byte ';' ∉ rest := fun present => inside (List.mem_cons_of_mem input present)
      have next := ih later (before ++ [input]) (fun symbol present =>
        List.mem_rtakeWhile_imp present)
      rw [List.cons_append]
      by_cases divides : input = byte '=' ∧ before.getLast?.any isNameChar
      · obtain ⟨rfl, named⟩ := divides
        have nonempty := (rtakeWhile_ne_nil_iff before).mpr named
        rw [pairFrom, if_pos ⟨rfl, named⟩]
        apply Regex.search_of_some
        rw [matchAt_eq, Regex.greedyPlus_append nonempty members (by simp; decide)
          afterName_blocked, ends.afterName_separator later]
      · rw [pairFrom, if_neg divides, ← next]
        by_cases member : isNameChar input
        · rw [List.rtakeWhile_concat_pos _ _ _ member, List.append_assoc, List.singleton_append]
        · rw [List.rtakeWhile_concat_neg _ _ _ member, List.nil_append]
          refine search_append_cons _ members member (fun separator => ?_)
          by_contra named
          exact divides ⟨separator, (rtakeWhile_ne_nil_iff before).mp named⟩

/-! ## The loop over the text -/

theorem fromString_eq (input : Bytes) :
    fromString input =
      match Regex.search matchAt input with
      | none => []
      | some (name, value, suffix) => { name, value } :: fromString suffix := by
  rw [fromString]
  split
  · next none => rw [none]
  · next found => rw [found]

theorem fromString_nil : fromString [] = [] := by
  rw [fromString_eq]
  rfl

/-- A byte in front that belongs to no name is skipped. -/
theorem fromString_cons {input : UInt8} (outside : ¬ isNameChar input) (rest : Bytes) :
    fromString (input :: rest) = fromString rest := by
  have members : ∀ symbol ∈ ([] : Bytes), isNameChar symbol := by simp
  have skip : Regex.search matchAt (input :: rest) = Regex.search matchAt rest :=
    search_append_cons rest members outside (fun _ => rfl)
  rw [fromString_eq, skip, ← fromString_eq]

/-- The loop finishes a segment before it goes on. -/
theorem EndsSegment.fromString_append {segment tail : Bytes} (ends : EndsSegment tail)
    (inside : byte ';' ∉ segment) :
    fromString (segment ++ tail) =
      ((pairOfSegment segment).map ofPair).toList ++ fromString tail := by
  have found := ends.search_segment inside []
  rw [List.rtakeWhile_nil, List.nil_append] at found
  rw [fromString_eq, found, pairOfSegment]
  cases pairFrom [] segment with
  | none => exact (fromString_eq tail).symm
  | some pair => rfl

/-- The loop of searches agrees with the reference. -/
theorem fromString_eq_bySegments (input : Bytes) : fromString input = bySegments input := by
  have semicolon : ¬ isNameChar (byte ';') := by decide
  induction size : input.length using Nat.strong_induction_on generalizing input with
  | _ size ih =>
    subst size
    by_cases separated : byte ';' ∈ input
    · obtain ⟨segment, rest, rfl, inside⟩ := List.eq_append_cons_of_mem separated
      have ends : EndsSegment (byte ';' :: rest) := by simp [EndsSegment]
      have later := ih rest.length (by simp; omega) rest rfl
      rw [ends.fromString_append inside, fromString_cons semicolon, later, bySegments, bySegments,
        List.splitOn_append_cons_self_of_not_mem inside, List.filterMap_cons]
      cases pairOfSegment segment <;> rfl
    · have ends : EndsSegment [] := by simp [EndsSegment]
      have whole := ends.fromString_append separated
      rw [List.append_nil, fromString_nil, List.append_nil] at whole
      rw [whole, bySegments, List.splitOn_eq_singleton separated, List.filterMap_cons]
      cases pairOfSegment input <;> rfl

theorem fromString_append (front back : Bytes) :
    fromString (front ++ byte ';' :: back) = fromString front ++ fromString back := by
  simp only [fromString_eq_bySegments, bySegments, List.splitOn_append_cons_self,
    List.filterMap_append, List.map_append]

/-! ## Written pairs -/

/-- The text of a pair. -/
def writePair (pair : CookiePair) : Bytes := pair.1 ++ byte '=' :: pair.2

/-- A list of pairs as a client sends it. -/
def writePairs (pairs : List CookiePair) : Bytes := (ascii "; ").intercalate (pairs.map writePair)

theorem writePairs_cons (pair : CookiePair) {pairs : List CookiePair} (more : pairs ≠ []) :
    writePairs (pair :: pairs) = writePair pair ++ byte ';' :: (SP :: writePairs pairs) := by
  cases pairs with
  | nil => exact (more rfl).elim
  | cons second pairs => simp [writePairs, ascii, byte]

/-- A byte outside the class hides what stands before it. -/
theorem pairFrom_append {outside : UInt8} (notName : ¬ isNameChar outside)
    (front before segment : Bytes) :
    pairFrom (front ++ outside :: before) segment = pairFrom before segment := by
  induction segment generalizing before with
  | nil => rfl
  | cons input rest ih =>
      have run : (front ++ outside :: before).rtakeWhile isNameChar =
          before.rtakeWhile isNameChar := by
        induction before using List.reverseRecOn with
        | nil => rw [List.rtakeWhile_concat_neg _ _ _ notName, List.rtakeWhile_nil]
        | append_singleton before last same =>
            rw [← List.cons_append, ← List.append_assoc, List.rtakeWhile_concat,
              List.rtakeWhile_concat, same]
      have last : (front ++ outside :: before).getLast?.any isNameChar =
          before.getLast?.any isNameChar := by
        rw [Bool.eq_iff_iff, ← rtakeWhile_ne_nil_iff, ← rtakeWhile_ne_nil_iff, run]
      have next := ih (before ++ [input])
      rw [← List.cons_append, ← List.append_assoc] at next
      rw [pairFrom, pairFrom, run, last, next]

theorem pairFrom_of_not_mem (before : Bytes) {name : Bytes} (inside : byte '=' ∉ name)
    (rest : Bytes) : pairFrom before (name ++ rest) = pairFrom (before ++ name) rest := by
  induction name generalizing before with
  | nil => rw [List.nil_append, List.append_nil]
  | cons input name ih =>
      have other : input ≠ byte '=' := fun same => inside (same ▸ List.mem_cons_self)
      rw [List.cons_append, pairFrom, if_neg (fun divides => other divides.1), ih _
        (fun present => inside (List.mem_cons_of_mem input present)), List.append_assoc,
        List.singleton_append]

/-- A written pair whose name ends with a name character is cut at its own
separator; from any other the value is left. -/
theorem pairOfSegment_writePair {pair : CookiePair} (inside : byte '=' ∉ pair.1) :
    pairOfSegment (writePair pair) =
      if pair.1.getLast?.any isNameChar then some (pair.1.rtakeWhile isNameChar, pair.2)
      else pairOfSegment pair.2 := by
  rw [pairOfSegment, writePair, pairFrom_of_not_mem [] inside, List.nil_append, pairFrom]
  by_cases named : pair.1.getLast?.any isNameChar
  · rw [if_pos ⟨rfl, named⟩, if_pos named]
  · rw [if_neg (fun divides => named divides.2), if_neg named]
    exact pairFrom_append (by decide) pair.1 [] pair.2

/-- A pair that stays in its segment. -/
def Bounded (pair : CookiePair) : Prop := byte ';' ∉ pair.1 ∧ byte ';' ∉ pair.2

theorem Bounded.not_mem_writePair {pair : CookiePair} (bounded : Bounded pair) :
    byte ';' ∉ writePair pair := by
  intro present
  rcases List.mem_append.mp present with early | late
  · exact bounded.1 early
  · rcases List.mem_cons.mp late with separator | late
    · revert separator
      decide
    · exact bounded.2 late

/-- The cookies of written pairs. -/
theorem fromString_writePairs {pairs : List CookiePair} (bounded : ∀ pair ∈ pairs, Bounded pair) :
    fromString (writePairs pairs) =
      (pairs.filterMap (fun pair => pairOfSegment (writePair pair))).map ofPair := by
  have semicolon : ¬ isNameChar (byte ';') := by decide
  have space : ¬ isNameChar SP := by decide
  induction pairs with
  | nil => exact fromString_nil
  | cons pair pairs ih =>
      have inside := (bounded pair List.mem_cons_self).not_mem_writePair
      have later := ih (fun other member => bounded other (List.mem_cons_of_mem pair member))
      by_cases more : pairs = []
      · subst more
        have single : writePairs [pair] = writePair pair := by simp [writePairs]
        rw [single, fromString_eq_bySegments, bySegments, List.splitOn_eq_singleton inside]
        rfl
      · have ends : EndsSegment (byte ';' :: SP :: writePairs pairs) := by simp [EndsSegment]
        rw [writePairs_cons pair more, ends.fromString_append inside, fromString_cons semicolon,
          fromString_cons space, later, List.filterMap_cons]
        cases pairOfSegment (writePair pair) <;> rfl

/-- **Cookies by segments.** The loop of searches returns the cookies of the
segments of any text, hence those of two texts joined by a semicolon one after
the other, and a written list of pairs with names of name characters exactly. -/
theorem fromString_reference :
    (∀ input, fromString input = bySegments input) ∧
    (∀ front back, fromString (front ++ byte ';' :: back) = fromString front ++ fromString back) ∧
    (∀ pairs : List CookiePair,
      (∀ pair ∈ pairs, pair.1 ≠ [] ∧ (∀ input ∈ pair.1, isNameChar input) ∧ byte ';' ∉ pair.2) →
        fromString (writePairs pairs) = pairs.map ofPair) := by
  refine ⟨fromString_eq_bySegments, fromString_append, ?_⟩
  intro pairs named
  have bounded : ∀ pair ∈ pairs, Bounded pair := by
    intro pair member
    obtain ⟨-, members, value⟩ := named pair member
    exact ⟨fun present => (isNameChar_ne (members _ present)).2 rfl, value⟩
  have whole : ∀ pair ∈ pairs, pairOfSegment (writePair pair) = some pair := by
    intro pair member
    obtain ⟨nonempty, members, -⟩ := named pair member
    have run : pair.1.rtakeWhile isNameChar = pair.1 := List.rtakeWhile_eq_self_iff.mpr members
    have ended := (rtakeWhile_ne_nil_iff pair.1).mp (by rwa [run])
    rw [pairOfSegment_writePair (fun present => (isNameChar_ne (members _ present)).1 rfl),
      if_pos ended, run]
  rw [fromString_writePairs bounded, List.filterMap_congr whole, List.filterMap_some]

theorem fromString_reference_pairs :
    fromString (writePairs [(ascii "SID", ascii "1=a b"), (ascii "x.y-z", [])]) =
      [(ascii "SID", ascii "1=a b"), (ascii "x.y-z", [])].map ofPair :=
  fromString_reference.2.2 _ (by decide +kernel)

/-! ## Where a segment is divided -/

/-- The first separator of a segment that directly follows a name character,
with what stands before it and after it. -/
structure DividesAt (front value segment : Bytes) : Prop where
  split : segment = front ++ byte '=' :: value
  named : front.getLast?.any isNameChar
  first : ∀ earlier later, front = earlier ++ byte '=' :: later →
    ¬ earlier.getLast?.any isNameChar

theorem pairFrom_eq_some_iff (before segment : Bytes) (pair : CookiePair) :
    pairFrom before segment = some pair ↔
      ∃ front, segment = front ++ byte '=' :: pair.2 ∧
        (before ++ front).getLast?.any isNameChar ∧
        (∀ earlier later, front = earlier ++ byte '=' :: later →
          ¬ (before ++ earlier).getLast?.any isNameChar) ∧
        (before ++ front).rtakeWhile isNameChar = pair.1 := by
  induction segment generalizing before with
  | nil => simp [pairFrom]
  | cons input rest ih =>
      rw [pairFrom]
      by_cases divides : input = byte '=' ∧ before.getLast?.any isNameChar
      · obtain ⟨rfl, named⟩ := divides
        rw [if_pos ⟨rfl, named⟩]
        constructor
        · intro found
          cases found
          exact ⟨[], rfl, by simpa using named, by simp, by simp⟩
        · intro found
          obtain ⟨front, split, -, first, run⟩ := found
          cases front with
          | nil =>
              rw [List.nil_append, List.cons.injEq] at split
              rw [List.append_nil] at run
              exact congrArg some (Prod.ext run split.2)
          | cons symbol front =>
              rw [List.cons_append, List.cons.injEq] at split
              rw [← split.1] at first
              have unnamed := first [] front rfl
              rw [List.append_nil] at unnamed
              exact (unnamed named).elim
      · rw [if_neg divides, ih]
        constructor
        · intro found
          obtain ⟨front, split, named, first, run⟩ := found
          rw [List.append_assoc, List.singleton_append] at named run
          refine ⟨input :: front, by rw [split, List.cons_append], named, ?_, run⟩
          intro earlier later shape
          cases earlier with
          | nil =>
              rw [List.nil_append, List.cons.injEq] at shape
              rw [List.append_nil]
              exact fun unnamed => divides ⟨shape.1, unnamed⟩
          | cons symbol earlier =>
              rw [List.cons_append, List.cons.injEq] at shape
              have unnamed := first earlier later shape.2
              rwa [shape.1, List.append_assoc, List.singleton_append] at unnamed
        · intro found
          obtain ⟨front, split, named, first, run⟩ := found
          cases front with
          | nil =>
              rw [List.nil_append, List.cons.injEq] at split
              rw [List.append_nil] at named
              exact (divides ⟨split.1, named⟩).elim
          | cons symbol front =>
              rw [List.cons_append, List.cons.injEq] at split
              obtain ⟨rfl, split⟩ := split
              refine ⟨front, split, by simpa using named, ?_, by simpa using run⟩
              intro earlier later shape
              have unnamed := first (input :: earlier) later (by rw [shape, List.cons_append])
              simpa using unnamed

/-- The pair of a segment is read at its first division. -/
theorem pairOfSegment_eq_some_iff (segment : Bytes) (pair : CookiePair) :
    pairOfSegment segment = some pair ↔
      ∃ front, DividesAt front pair.2 segment ∧ front.rtakeWhile isNameChar = pair.1 := by
  rw [pairOfSegment, pairFrom_eq_some_iff]
  constructor
  · intro found
    obtain ⟨front, split, named, first, run⟩ := found
    exact ⟨front, ⟨split, named, first⟩, run⟩
  · intro found
    obtain ⟨front, divides, run⟩ := found
    exact ⟨front, divides.split, divides.named, divides.first, run⟩

end Cookie

end Webserver.HTTP
