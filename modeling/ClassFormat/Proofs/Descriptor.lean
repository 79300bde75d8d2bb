import ClassFormat.Descriptor
import Mathlib.Tactic.Common
/-!
# Descriptors of types, scanned and rendered

`type.chars` are the characters that a type is rendered as. Scanning takes exactly the well-formed
types off the front of their characters, so a whole string is parsed as a type exactly if the type
is well formed and rendered as that string. The parameters of a method stand in a row without marks
between them. They can be told apart since scanning a type stops by itself, and the parenthesis
behind them cannot be taken for another one, since no type begins with it.
-/

namespace ClassFormat

/-- Whether a character can stand in a class name. -/
def IsNameChar (c : Char) : Prop := c ≠ ';' ∧ c ≠ '.' ∧ c ≠ '['

/-! ## Whole strings -/

section

variable {α : Type} {scan : List Char → Option α × List Char} {text : String}

/-- A string is parsed if scanning finds something and leaves nothing. -/
theorem parseAll_eq_ok_iff {value : α} :
    parseAll scan text = .ok value ↔ scan text.toList = (some value, []) := by
  unfold parseAll
  split
  · rename_i found heq
    rw [heq]
    simp
  · rename_i hother
    constructor
    · intro h
      cases h
    · intro h
      exact absurd h (hother value)

/-- A string that is not parsed is refused by itself. -/
theorem parseAll_eq_error_iff {cause : Error} : parseAll scan text = .error cause
    ↔ cause = .badDescriptor text ∧ ∀ value, parseAll scan text ≠ .ok value := by
  unfold parseAll
  split
  · rename_i value _
    constructor
    · intro h
      cases h
    · rintro ⟨-, hnone⟩
      exact absurd rfl (hnone value)
  · constructor
    · intro h
      cases h
      refine ⟨rfl, ?_⟩
      intro value h
      cases h
    · rintro ⟨rfl, -⟩
      rfl

end

/-! ## Types in fields -/

theorem BaseType.ofLetter?_eq_some_iff {c : Char} {type : BaseType} :
    ofLetter? c = some type ↔ c = type.letter := by
  constructor
  · intro h
    unfold ofLetter? at h
    split at h <;> cases h <;> rfl
  · rintro rfl
    cases type <;> rfl

namespace FieldType

/-- Whether every class name has characters, and none that would end it. -/
def WellFormed : FieldType → Prop
  | base _ => True
  | object className => className.toList ≠ [] ∧ ∀ c ∈ className.toList, IsNameChar c
  | array element => element.WellFormed

/-- The characters of the descriptor of a type. -/
def chars : FieldType → List Char
  | base type => [type.letter]
  | object className => 'L' :: (className.toList ++ [';'])
  | array element => '[' :: element.chars

theorem toList_renderAfter (text : String) (type : FieldType) :
    (type.renderAfter text).toList = text.toList ++ type.chars := by
  induction type generalizing text with
  | base type => rw [renderAfter, String.toList_push, chars]
  | object className =>
    rw [renderAfter, String.toList_push, String.toList_append, String.toList_push, chars,
      List.append_assoc, List.append_assoc, List.singleton_append]
  | array element ih =>
    rw [renderAfter, ih, String.toList_push, chars, List.append_assoc, List.singleton_append]

theorem toList_render (type : FieldType) : type.render.toList = type.chars :=
  toList_renderAfter "" type

/-! ### Class names -/

/-- A name goes on as long as its characters are allowed in one. -/
theorem scanName_cons_of_isNameChar {c : Char} (h : IsNameChar c) (taken rest : List Char) :
    scanName taken (c :: rest) = scanName (c :: taken) rest := by
  obtain ⟨hsemicolon, hdot, hbracket⟩ := h
  rw [scanName, if_neg fun hend => hsemicolon hend.1,
    if_neg fun hend => hend.elim hsemicolon fun hother => hother.elim hdot hbracket]

/-- A name is taken up to the semicolon behind it. -/
theorem scanName_append (taken : List Char) {name : List Char} (h : ∀ c ∈ name, IsNameChar c)
    (hsome : taken ≠ [] ∨ name ≠ []) (rest : List Char) :
    scanName taken (name ++ ';' :: rest)
      = (some (object (String.ofList (taken.reverse ++ name))), rest) := by
  induction name generalizing taken with
  | nil =>
    have htaken : taken ≠ [] := hsome.resolve_right fun hne => hne rfl
    rw [List.nil_append, scanName, if_pos ⟨rfl, htaken⟩, List.append_nil]
  | cons c name ih =>
    rw [List.forall_mem_cons] at h
    rw [List.cons_append, scanName_cons_of_isNameChar h.1,
      ih (c :: taken) h.2 (.inl (List.cons_ne_nil c taken)), List.reverse_cons, List.append_assoc,
      List.singleton_append]

/-- What is taken as a name stands in front of a semicolon. -/
theorem scanName_eq_some {taken input rest : List Char} {type : FieldType}
    (h : scanName taken input = (some type, rest)) : ∃ name, (∀ c ∈ name, IsNameChar c)
      ∧ taken.reverse ++ name ≠ [] ∧ input = name ++ ';' :: rest
      ∧ type = object (String.ofList (taken.reverse ++ name)) := by
  induction input generalizing taken with
  | nil => cases h
  | cons c input ih =>
    rw [scanName] at h
    split at h
    · rename_i hend
      cases h
      refine ⟨[], by simp, ?_, ?_, ?_⟩
      · rw [List.append_nil]
        exact List.reverse_ne_nil_iff.mpr hend.2
      · rw [List.nil_append, hend.1]
      · rw [List.append_nil]
    split at h
    · cases h
    · rename_i hname
      rw [not_or, not_or] at hname
      obtain ⟨name, hchars, hne, rfl, rfl⟩ := ih h
      have heq : (c :: taken).reverse ++ name = taken.reverse ++ c :: name := by
        rw [List.reverse_cons, List.append_assoc, List.singleton_append]
      rw [heq] at hne ⊢
      exact ⟨c :: name, List.forall_mem_cons.mpr ⟨hname, hchars⟩, hne, rfl, rfl⟩

/-! ### All types -/

/-- The characters of a type are taken off the front, whatever follows. -/
theorem scanInside_chars (dimensions : Nat) {type : FieldType} (h : type.WellFormed)
    (rest : List Char) :
    scanInside dimensions (type.chars ++ rest) = (some (arrayOf dimensions type), rest) := by
  induction type generalizing dimensions with
  | base type => cases type <;> rfl
  | object className =>
    -- An empty name is not taken, which is why a class name has to have characters.
    have hname := scanName_append [] h.2 (.inr h.1) rest
    rw [List.reverse_nil, List.nil_append, String.ofList_toList] at hname
    rw [chars, List.cons_append, List.append_assoc, List.singleton_append, scanInside,
      if_neg (by decide), if_pos rfl, hname]
    rfl
  | array element ih =>
    rw [chars, List.cons_append, scanInside, if_pos rfl, ih (dimensions + 1) h]
    rfl

/-- What is taken off the front are the characters of a well-formed type. -/
theorem scanInside_eq_some {dimensions : Nat} {input rest : List Char} {found : FieldType}
    (h : scanInside dimensions input = (some found, rest)) :
    ∃ type : FieldType, type.WellFormed ∧ found = arrayOf dimensions type
      ∧ input = type.chars ++ rest := by
  -- Each bracket is one dimension more, which the induction carries along.
  induction input generalizing dimensions with
  | nil => cases h
  | cons c input ih =>
    rw [scanInside] at h
    split at h
    · rename_i hbracket
      obtain ⟨type, hwell, rfl, rfl⟩ := ih h
      exact ⟨array type, hwell, rfl, by rw [hbracket]; rfl⟩
    split at h
    · rename_i hletter
      cases hname : scanName [] input with
      | mk name? after =>
        rw [hname, Prod.mk.injEq, Option.map_eq_some_iff] at h
        obtain ⟨⟨type, rfl, rfl⟩, rfl⟩ := h
        obtain ⟨name, hchars, hne, rfl, rfl⟩ := scanName_eq_some hname
        rw [List.reverse_nil, List.nil_append] at hne ⊢
        refine ⟨object (String.ofList name), ?_, rfl, ?_⟩
        · rw [WellFormed, String.toList_ofList]
          exact ⟨hne, hchars⟩
        · rw [chars, String.toList_ofList, hletter, List.cons_append, List.append_assoc,
            List.singleton_append]
    · rw [Prod.mk.injEq, Option.map_eq_some_iff] at h
      obtain ⟨⟨type, htype, rfl⟩, rfl⟩ := h
      obtain rfl := BaseType.ofLetter?_eq_some_iff.mp htype
      exact ⟨base type, trivial, rfl, rfl⟩

/-- The scanner finds a field type exactly where its own characters stand, if it is well formed. -/
theorem scan_eq_some_iff {input rest : List Char} {type : FieldType} :
    scan input = (some type, rest) ↔ type.WellFormed ∧ input = type.chars ++ rest := by
  constructor
  · intro h
    obtain ⟨other, hwell, rfl, rfl⟩ := scanInside_eq_some h
    exact ⟨hwell, rfl⟩
  · rintro ⟨hwell, rfl⟩
    exact scanInside_chars 0 hwell rest

/-- A string is parsed as a type exactly if the type is well formed and has that string as its
descriptor. -/
theorem parse_eq_ok_iff {text : String} {type : FieldType} :
    FieldType.parse text = .ok type ↔ type.WellFormed ∧ type.render = text := by
  unfold FieldType.parse
  rw [parseAll_eq_ok_iff, scan_eq_some_iff, List.append_nil, ← toList_render, String.toList_inj,
    eq_comm (b := text)]

/-- A type begins with a letter or a bracket. -/
theorem exists_chars_cons (type : FieldType) : ∃ c others, type.chars = c :: others
    ∧ c ≠ ')' ∧ c ≠ 'V' := by
  cases type with
  | base type =>
    refine ⟨type.letter, [], rfl, ?_, ?_⟩
    · cases type <;> decide
    · cases type <;> decide
  | object className => exact ⟨'L', _, rfl, by decide, by decide⟩
  | array element => exact ⟨'[', _, rfl, by decide, by decide⟩

end FieldType

/-! ## Types of methods -/

namespace MethodType

/-- Whether all types of parameters and result are well formed. -/
structure WellFormed (type : MethodType) : Prop where
  parameters : ∀ parameter ∈ type.parameters, parameter.WellFormed
  result : ∀ result ∈ type.result, result.WellFormed

/-- The characters of the type of a result, if there is one. -/
def resultChars : Option FieldType → List Char
  | none => ['V']
  | some result => result.chars

/-- The characters of the descriptor of a method. -/
def chars (type : MethodType) : List Char :=
  '(' :: (type.parameters.flatMap FieldType.chars ++ ')' :: resultChars type.result)

theorem toList_foldl_renderAfter (text : String) (types : List FieldType) :
    (types.foldl FieldType.renderAfter text).toList
      = text.toList ++ types.flatMap FieldType.chars := by
  induction types generalizing text with
  | nil => simp
  | cons type types ih =>
    rw [List.foldl_cons, ih, FieldType.toList_renderAfter, List.flatMap_cons, List.append_assoc]

theorem toList_render (type : MethodType) : type.render.toList = type.chars := by
  unfold render chars
  cases type.result with
  | none =>
    show (((type.parameters.foldl FieldType.renderAfter "(").push ')').push 'V').toList = _
    rw [String.toList_push, String.toList_push, toList_foldl_renderAfter]
    simp [resultChars]
  | some result =>
    show (result.renderAfter (String.push _ ')')).toList = _
    rw [FieldType.toList_renderAfter, String.toList_push, toList_foldl_renderAfter]
    simp [resultChars]

/-! ### Parameters -/

/-- Parameters take a character each, or more. -/
theorem length_le_length_flatMap (parameters : List FieldType) :
    parameters.length ≤ (parameters.flatMap FieldType.chars).length := by
  induction parameters with
  | nil => exact Nat.le_refl 0
  | cons parameter parameters ih =>
    obtain ⟨c, others, hchars, -, -⟩ := parameter.exists_chars_cons
    rw [List.flatMap_cons, List.length_append, hchars, List.length_cons, List.length_cons]
    omega

/-- Well-formed parameters are taken up to the parenthesis behind them. -/
theorem scanParameters_chars {bound : Nat} (taken : List FieldType) {parameters : List FieldType}
    (h : ∀ parameter ∈ parameters, parameter.WellFormed) (hbound : parameters.length < bound)
    (rest : List Char) :
    scanParameters bound taken (parameters.flatMap FieldType.chars ++ ')' :: rest)
      = (some (taken.reverse ++ parameters), rest) := by
  induction parameters generalizing bound taken with
  | nil =>
    obtain ⟨bound, rfl⟩ := Nat.exists_eq_add_one_of_ne_zero (Nat.ne_zero_of_lt hbound)
    rw [List.append_nil]
    rfl
  | cons parameter parameters ih =>
    obtain ⟨bound, rfl⟩ := Nat.exists_eq_add_one_of_ne_zero (Nat.ne_zero_of_lt hbound)
    rw [List.forall_mem_cons] at h
    have hscan : FieldType.scan
        (parameter.chars ++ (parameters.flatMap FieldType.chars ++ ')' :: rest))
          = (some parameter, parameters.flatMap FieldType.chars ++ ')' :: rest) :=
      FieldType.scan_eq_some_iff.mpr ⟨h.1, rfl⟩
    obtain ⟨c, others, hchars, hparenthesis, -⟩ := parameter.exists_chars_cons
    have hhead : (parameter.chars ++ (parameters.flatMap FieldType.chars ++ ')' :: rest)).head?
        ≠ some ')' := by
      rw [hchars]
      intro heq
      exact hparenthesis (Option.some.inj heq)
    rw [List.flatMap_cons, List.append_assoc, scanParameters, if_neg hhead, hscan]
    show scanParameters bound (parameter :: taken) _ = _
    rw [ih (parameter :: taken) h.2 (Nat.lt_of_succ_lt_succ hbound), List.reverse_cons,
      List.append_assoc, List.singleton_append]

/-- What is taken as parameters are well-formed types in front of a parenthesis. -/
theorem scanParameters_eq_some {bound : Nat} {taken found : List FieldType}
    {input rest : List Char} (h : scanParameters bound taken input = (some found, rest)) :
    ∃ parameters : List FieldType, (∀ parameter ∈ parameters, parameter.WellFormed)
      ∧ found = taken.reverse ++ parameters
      ∧ input = parameters.flatMap FieldType.chars ++ ')' :: rest := by
  induction bound generalizing taken input with
  | zero => cases h
  | succ bound ih =>
    rw [scanParameters] at h
    split at h
    · rename_i hhead
      cases h
      obtain ⟨tail, rfl⟩ := List.head?_eq_some_iff.mp hhead
      exact ⟨[], by simp, by simp, rfl⟩
    · split at h
      · rename_i parameter after hscan
        obtain ⟨hwell, rfl⟩ := FieldType.scan_eq_some_iff.mp hscan
        obtain ⟨parameters, hall, rfl, rfl⟩ := ih h
        refine ⟨parameter :: parameters, List.forall_mem_cons.mpr ⟨hwell, hall⟩, ?_, ?_⟩
        · rw [List.reverse_cons, List.append_assoc, List.singleton_append]
        · rw [List.flatMap_cons, List.append_assoc]
      · cases h

/-! ### Whole types -/

theorem scanResult_eq_some_iff {input rest : List Char} {result : Option FieldType} :
    scanResult input = (some result, rest)
      ↔ (∀ type ∈ result, type.WellFormed) ∧ input = resultChars result ++ rest := by
  unfold scanResult
  by_cases hhead : input.head? = some 'V'
  · obtain ⟨tail, rfl⟩ := List.head?_eq_some_iff.mp hhead
    rw [if_pos hhead]
    constructor
    · intro h
      cases h
      exact ⟨by simp, rfl⟩
    · rintro ⟨-, hinput⟩
      cases result with
      | none =>
        cases hinput
        rfl
      | some type =>
        -- No type begins with the letter that stands for none.
        obtain ⟨c, others, hchars, -, hvoid⟩ := type.exists_chars_cons
        rw [resultChars, hchars, List.cons_append, List.cons.injEq] at hinput
        exact absurd hinput.1.symm hvoid
  · rw [if_neg hhead]
    constructor
    · intro h
      rw [Prod.mk.injEq, Option.map_eq_some_iff] at h
      obtain ⟨⟨type, htype, rfl⟩, hrest⟩ := h
      obtain ⟨hwell, hinput⟩ := FieldType.scan_eq_some_iff.mp (Prod.ext htype hrest)
      refine ⟨?_, hinput⟩
      rintro _ ⟨⟩
      exact hwell
    · rintro ⟨hwell, rfl⟩
      cases result with
      | none => exact absurd rfl hhead
      | some type =>
        have hscan : FieldType.scan (type.chars ++ rest) = (some type, rest) :=
          FieldType.scan_eq_some_iff.mpr ⟨hwell type rfl, rfl⟩
        rw [resultChars, hscan]
        rfl

/-- The scanner finds a method type exactly where its own characters stand. -/
theorem scan_eq_some_iff {input rest : List Char} {type : MethodType} :
    scan input = (some type, rest) ↔ type.WellFormed ∧ input = type.chars ++ rest := by
  unfold scan
  constructor
  · intro h
    split at h
    · rename_i hhead
      obtain ⟨tail, rfl⟩ := List.head?_eq_some_iff.mp hhead
      split at h
      · cases h
      · rename_i parameters after hparameters
        rw [Prod.mk.injEq, Option.map_eq_some_iff] at h
        obtain ⟨⟨result, hresult, rfl⟩, hrest⟩ := h
        obtain ⟨found, hall, rfl, htail⟩ := scanParameters_eq_some hparameters
        obtain ⟨hwell, rfl⟩ := scanResult_eq_some_iff.mp (Prod.ext hresult hrest)
        refine ⟨⟨hall, hwell⟩, ?_⟩
        rw [List.tail_cons] at htail
        rw [htail, chars, List.cons_append, List.append_assoc, List.cons_append]
    · cases h
  · rintro ⟨hwell, rfl⟩
    obtain ⟨parameters, result⟩ := type
    have hparameters : scanParameters (chars ⟨parameters, result⟩ ++ rest).length []
        (parameters.flatMap FieldType.chars ++ ')' :: (resultChars result ++ rest))
          = (some parameters, resultChars result ++ rest) := by
      refine scanParameters_chars [] hwell.parameters ?_ _
      have hle := length_le_length_flatMap parameters
      simp only [chars, List.length_append, List.length_cons]
      omega
    have hresult : scanResult (resultChars result ++ rest) = (some result, rest) :=
      scanResult_eq_some_iff.mpr ⟨hwell.result, rfl⟩
    have hhead : (chars ⟨parameters, result⟩ ++ rest).head? = some '(' := rfl
    have htail : (chars ⟨parameters, result⟩ ++ rest).tail
        = parameters.flatMap FieldType.chars ++ ')' :: (resultChars result ++ rest) := by
      rw [chars, List.cons_append, List.tail_cons, List.append_assoc, List.cons_append]
    rw [if_pos hhead, htail, hparameters]
    simp only [hresult, Option.map_some]

end MethodType

/-- Parsing undoes rendering, and nothing else is parsed. A string is parsed as a type, of a field
or of a method, exactly if the class names in the type are well formed and the type is rendered as
that string. Any other string is refused with the string itself. -/
theorem parse_inverts_render :
    (∀ text type, FieldType.parse text = .ok type ↔ type.WellFormed ∧ type.render = text)
    ∧ (∀ text type, MethodType.parse text = .ok type ↔ type.WellFormed ∧ type.render = text)
    ∧ (∀ text cause, FieldType.parse text = .error cause ↔ cause = .badDescriptor text
      ∧ ¬ ∃ type : FieldType, type.WellFormed ∧ type.render = text)
    ∧ ∀ text cause, MethodType.parse text = .error cause ↔ cause = .badDescriptor text
      ∧ ¬ ∃ type : MethodType, type.WellFormed ∧ type.render = text := by
  have hmethod (text : String) (type : MethodType) :
      MethodType.parse text = .ok type ↔ type.WellFormed ∧ type.render = text := by
    unfold MethodType.parse
    rw [parseAll_eq_ok_iff, MethodType.scan_eq_some_iff, List.append_nil,
      ← MethodType.toList_render, String.toList_inj, eq_comm (b := text)]
  refine ⟨fun text type => FieldType.parse_eq_ok_iff, hmethod, fun text cause => ?_,
    fun text cause => ?_⟩
  · simp only [← FieldType.parse_eq_ok_iff, not_exists]
    exact parseAll_eq_error_iff
  · simp only [← hmethod, not_exists]
    exact parseAll_eq_error_iff

/-- A class name may hold what closes the parameters and what stands for no result. -/
example : MethodType.parse "(L)V;I)V" = .ok ⟨[.object ")V", .base .int], none⟩ := by
  decide +kernel

end ClassFormat
