import AccessChain.Proofs.Margins
import AccessChain.Proofs.Segmentation

/-! Segments as the pieces of one pass over the text that cuts it at every access operator. The pass loses nothing: its
pieces and the operators between them are the text, and no operator is left in a piece. -/
namespace AccessChain

theorem Text.trim_eq_nil_iff (test : Sym → Bool) (text : Text) : trim test text = [] ↔ ∀ symbol ∈ text, test symbol = true := by
  constructor
  · intro empty symbol member
    obtain ⟨front, back, before, behind, whole⟩ := trim_parts test text
    rw [whole, empty, List.nil_append] at member
    exact (List.mem_append.mp member).elim (before symbol) (behind symbol)
  · intro blank
    rw [trim, List.dropWhile_eq_nil_iff.mpr blank]
    rfl

theorem Text.trim_infix (test : Sym → Bool) (text : Text) : trim test text <:+: text := by
  obtain ⟨front, back, _, _, whole⟩ := trim_parts test text
  exact ⟨front, back, by rw [List.append_assoc, ← whole]⟩

namespace Chain

/-- A text that is cut at access operators: what stands in front of the first of them, and each of them with what stands
behind it up to the next. -/
structure Cuts where
  first : Text
  behind : List (List Char × Text)

namespace Cuts

def pieces (cuts : Cuts) : List Text := cuts.first :: cuts.behind.map Prod.snd

def joined (cuts : Cuts) : Text := cuts.first ++ cuts.behind.flatMap fun cut => Text.ofChars cut.1 ++ cut.2

/-- How often the text is cut at an operator. -/
def count (cuts : Cuts) (operator : List Char) : Nat := cuts.behind.countP (·.1 == operator)

end Cuts

/-- The operator that two symbols are. -/
def operatorOf? (first second : Sym) : Option (List Char) :=
  operators.find? fun operator => Text.ofChars operator = [first, second]

/-- One pass from left to right. It goes on behind an operator where it finds one, and else behind a single symbol. -/
def cuts : Text → Cuts
  | [] => ⟨[], []⟩
  | [symbol] => ⟨[symbol], []⟩
  | symbol :: next :: rest =>
    match operatorOf? symbol next with
    | some operator => ⟨[], (operator, (cuts rest).first) :: (cuts rest).behind⟩
    | none => ⟨symbol :: (cuts (next :: rest)).first, (cuts (next :: rest)).behind⟩

theorem operatorOf?_eq_none_iff (first second : Sym) :
    operatorOf? first second = none ↔ ∀ operator ∈ operators, Text.ofChars operator ≠ [first, second] := by
  simp [operatorOf?]

theorem operatorOf?_eq_some (first second : Sym) (operator : List Char) (found : operatorOf? first second = some operator) :
    operator ∈ operators ∧ Text.ofChars operator = [first, second] := by
  have same := List.find?_some found
  exact ⟨List.mem_of_find?_eq_some found, by simpa using same⟩

theorem operator_signs (operator : List Char) (listed : operator ∈ operators) :
    ∃ first second, operator = [first, second] ∧ operatorOf? (.char first) (.char second) = some operator := by
  have rows : ∀ operator ∈ operators, ∃ first second, operator = [first, second] ∧
      operatorOf? (.char first) (.char second) = some operator := by
    simp [operators, operatorOf?, Text.ofChars]
  exact rows operator listed

/-- Whether no operator stands at the front of a text. -/
def StartsPlain (text : Text) : Prop := ∀ operator ∈ operators, ¬ Text.ofChars operator <+: text

theorem cuts_operator (operator : List Char) (listed : operator ∈ operators) (text : Text) :
    cuts (Text.ofChars operator ++ text) = ⟨[], (operator, (cuts text).first) :: (cuts text).behind⟩ := by
  obtain ⟨first, second, rfl, found⟩ := operator_signs operator listed
  change cuts (.char first :: .char second :: text) = _
  rw [cuts, found]

theorem cuts_plain (symbol : Sym) (text : Text) (plain : StartsPlain (symbol :: text)) :
    cuts (symbol :: text) = ⟨symbol :: (cuts text).first, (cuts text).behind⟩ := by
  cases text with
  | nil => rfl
  | cons next text =>
    have missing : operatorOf? symbol next = none := by
      rw [operatorOf?_eq_none_iff]
      intro operator listed same
      exact plain operator listed ⟨text, by rw [same]; rfl⟩
    rw [cuts, missing]

/-- Induction along the pass: an operator is taken at once. -/
theorem cuts_induction {motive : Text → Prop} (nil : motive [])
    (cut : ∀ operator ∈ operators, ∀ text, motive text → motive (Text.ofChars operator ++ text))
    (plain : ∀ symbol text, StartsPlain (symbol :: text) → motive text → motive (symbol :: text)) (text : Text) :
    motive text := by
  fun_induction cuts text with
  | case1 => exact nil
  | case2 symbol =>
    refine plain symbol [] (fun operator listed starts => ?_) nil
    obtain ⟨first, second, rfl, _⟩ := operator_signs operator listed
    exact absurd starts.length_le (by simp [Text.ofChars])
  | case3 symbol next rest operator found ih =>
    obtain ⟨listed, same⟩ := operatorOf?_eq_some symbol next operator found
    have whole := cut operator listed rest ih
    rwa [same] at whole
  | case4 symbol next rest missing ih =>
    refine plain symbol _ (fun operator listed starts => ?_) ih
    obtain ⟨first, second, rfl, _⟩ := operator_signs operator listed
    obtain ⟨more, same⟩ := starts
    obtain ⟨rfl, tail⟩ := List.cons.inj same
    obtain ⟨rfl, _⟩ := List.cons.inj tail
    exact (operatorOf?_eq_none_iff _ _).mp missing _ listed rfl

theorem joined_cuts (text : Text) : (cuts text).joined = text := by
  induction text using cuts_induction with
  | nil => rfl
  | cut operator listed text ih =>
    rw [Cuts.joined] at ih
    rw [cuts_operator operator listed text, Cuts.joined, List.flatMap_cons, List.nil_append, List.append_assoc, ih]
  | plain symbol text plain ih =>
    rw [Cuts.joined] at ih
    rw [cuts_plain symbol text plain, Cuts.joined, List.cons_append, ih]

theorem first_cuts_prefix (text : Text) : (cuts text).first <+: text := by
  have whole := joined_cuts text
  exact ⟨_, whole⟩

theorem not_infix_of_mem_pieces (text piece : Text) (member : piece ∈ (cuts text).pieces) (operator : List Char)
    (listed : operator ∈ operators) : ¬ Text.ofChars operator <:+: piece := by
  obtain ⟨first, second, rfl, _⟩ := operator_signs operator listed
  induction text using cuts_induction generalizing piece with
  | nil =>
    obtain rfl : piece = [] := by simpa [cuts, Cuts.pieces] using member
    simp [Text.ofChars]
  | cut other otherListed text ih =>
    rw [cuts_operator other otherListed text, Cuts.pieces] at member
    rcases List.mem_cons.mp member with rfl | later
    · simp [Text.ofChars]
    · exact ih piece later
  | plain symbol text plain ih =>
    rw [cuts_plain symbol text plain, Cuts.pieces] at member
    rcases List.mem_cons.mp member with rfl | later
    · rw [List.infix_cons_iff, not_or]
      refine ⟨fun starts => ?_, ih _ List.mem_cons_self⟩
      -- The piece is the front of the text, which an operator does not stand at.
      exact plain _ listed (starts.trans (List.cons_prefix_cons.mpr ⟨rfl, first_cuts_prefix text⟩))
    · exact ih piece (List.mem_cons_of_mem _ later)

theorem length_pieces_cuts (text : Text) :
    (cuts text).pieces.length = 1 + (cuts text).count ['-', '>'] + (cuts text).count [':', ':'] := by
  induction text using cuts_induction with
  | nil => rfl
  | cut operator listed text ih =>
    have either : operator = ['-', '>'] ∨ operator = [':', ':'] := by simpa [operators] using listed
    simp only [Cuts.pieces, Cuts.count, List.length_cons, List.length_map] at ih
    rw [cuts_operator operator listed text]
    simp only [Cuts.pieces, Cuts.count, List.map_cons, List.length_cons, List.length_map, List.countP_cons]
    -- The cut counts for one of the two operators.
    rcases either with rfl | rfl
    · rw [if_pos (by decide), if_neg (by decide)]
      omega
    · rw [if_neg (by decide), if_pos (by decide)]
      omega
  | plain symbol text plain ih =>
    rw [cuts_plain symbol text plain]
    exact ih

/-! Splitting at one operator and then at the other. -/

section Twice
variable (first second third fourth : Sym)

/-- The pieces of a text that is split at one pair of symbols, and each piece at another pair. -/
def splitTwice (text : Text) : List Text := (split first second text).flatMap (split third fourth)

theorem splitTwice_outer (text : Text) :
    splitTwice first second third fourth (first :: second :: text) = [] :: splitTwice first second third fourth text := by
  rw [splitTwice, split_match, List.flatMap_cons]
  rfl

theorem splitTwice_inner (apart : third ≠ first ∧ fourth ≠ first) (text : Text) :
    splitTwice first second third fourth (third :: fourth :: text) = [] :: splitTwice first second third fourth text := by
  obtain ⟨piece, others, parts⟩ := List.exists_cons_of_ne_nil (split_ne_nil first second text)
  rw [splitTwice, split_cons first second third _ fun both => apart.1 both.1,
    split_cons first second fourth _ fun both => apart.2 both.1, splitTwice, parts]
  simp only [List.modifyHead_cons, List.flatMap_cons, split_match, List.cons_append]

theorem head?_of_split (text piece : Text) (others : List Text) (parts : split first second text = piece :: others)
    (symbol : Sym) (headed : piece.head? = some symbol) : text.head? = some symbol := by
  induction text using split_induction first second with
  | nil =>
    obtain ⟨rfl, _⟩ := List.cons.inj parts
    contradiction
  | cut text ih =>
    rw [split_match] at parts
    obtain ⟨rfl, _⟩ := List.cons.inj parts
    contradiction
  | cons mark text apart ih =>
    obtain ⟨front, later, behind⟩ := List.exists_cons_of_ne_nil (split_ne_nil first second text)
    rw [split_cons first second mark text apart, behind, List.modifyHead_cons] at parts
    obtain ⟨rfl, _⟩ := List.cons.inj parts
    exact headed

theorem splitTwice_plain (symbol : Sym) (text : Text) (outer : ¬ (symbol = first ∧ text.head? = some second))
    (inner : ¬ (symbol = third ∧ text.head? = some fourth)) :
    splitTwice first second third fourth (symbol :: text) =
      (splitTwice first second third fourth text).modifyHead (symbol :: ·) := by
  obtain ⟨piece, others, parts⟩ := List.exists_cons_of_ne_nil (split_ne_nil first second text)
  have inside : ¬ (symbol = third ∧ piece.head? = some fourth) :=
    fun both => inner ⟨both.1, head?_of_split first second text piece others parts fourth both.2⟩
  obtain ⟨front, later, pieceParts⟩ := List.exists_cons_of_ne_nil (split_ne_nil third fourth piece)
  rw [splitTwice, split_cons first second symbol text outer, splitTwice, parts]
  simp only [List.modifyHead_cons, List.flatMap_cons, split_cons third fourth symbol piece inside, pieceParts,
    List.cons_append]

end Twice

/-- Whichever operator the text is split at first, the pieces are those of the one pass. -/
theorem splitTwice_eq_pieces (first second third fourth : Char) (apart : third ≠ first ∧ fourth ≠ first)
    (both : ∀ operator, operator ∈ operators ↔ operator = [first, second] ∨ operator = [third, fourth]) (text : Text) :
    splitTwice (.char first) (.char second) (.char third) (.char fourth) text = (cuts text).pieces := by
  have others : Sym.char third ≠ .char first ∧ Sym.char fourth ≠ .char first := by simpa using apart
  induction text using cuts_induction with
  | nil => rfl
  | cut operator listed text ih =>
    rw [cuts_operator operator listed text, Cuts.pieces, List.map_cons]
    rcases (both operator).mp listed with rfl | rfl
    · rw [← Cuts.pieces, ← ih]
      exact splitTwice_outer _ _ _ _ text
    · rw [← Cuts.pieces, ← ih]
      exact splitTwice_inner _ _ _ _ others text
  | plain symbol text plain ih =>
    have apart : ∀ mark next : Char, [mark, next] ∈ operators → ¬ (symbol = .char mark ∧ text.head? = some (.char next)) := by
      rintro mark next listed ⟨rfl, headed⟩
      obtain ⟨more, rfl⟩ := List.head?_eq_some_iff.mp headed
      exact plain [mark, next] listed ⟨more, rfl⟩
    rw [splitTwice_plain _ _ _ _ symbol text (apart first second ((both _).mpr (.inl rfl)))
      (apart third fourth ((both _).mpr (.inr rfl))), ih, cuts_plain symbol text plain]
    rfl

theorem pieces_eq_cuts (text : Text) : pieces text = (cuts text).pieces :=
  splitTwice_eq_pieces '-' '>' ':' ':' (by decide) (by simp [operators]) text

/-! Nothing is emptied down to nothing. -/

theorem stripContent_eq_nil_iff (opening closing text : Text) : Pair.stripContent opening closing text = [] ↔ text = [] := by
  cases text with
  | nil => simp [Pair.stripContent, Pair.collapse]
  | cons symbol text =>
    rw [Pair.stripContent, Pair.collapse]
    split <;> simp

theorem unwrapInstantiation_eq_nil_iff (text : Text) : unwrapInstantiation text = [] ↔ text = [] := by
  unfold unwrapInstantiation
  split
  · next opens =>
    obtain ⟨more, rfl⟩ := (Text.startsWith_iff _ _).mp (Bool.and_eq_true_iff.mp opens).1
    split
    · refine iff_of_false (fun empty => ?_) (by simp [Text.ofChars])
      have length := congrArg List.length empty
      simp [Text.ofChars] at length
      omega
    · rfl
  · rfl

theorem emptied_eq_nil_iff (text : Text) : emptied text = [] ↔ text = [] := by
  rw [emptied, stripContent_eq_nil_iff]
  split
  · rw [stripContent_eq_nil_iff, unwrapInstantiation_eq_nil_iff]
  · rw [unwrapInstantiation_eq_nil_iff]

theorem segments_eq_nil_iff (tokenizer : Tokenizer) (text : Text) :
    segments tokenizer text = [] ↔ emptied (withoutComments tokenizer text) = [] := by
  rw [segments]
  split
  · next empty => exact iff_of_true rfl (List.isEmpty_iff.mp empty)
  · next held =>
    have nonempty := pieces_ne_nil (emptied (withoutComments tokenizer text))
    exact iff_of_false (by simpa using nonempty) (by simpa using held)

/-- There is no segment exactly where no more than white space is left without the comments. Else the segments are the
trimmed pieces of one pass over the emptied text: one more than there are cuts, with no operator in any of them and with
nothing lost in between. Splitting at the static operator first gives the same ones. -/
theorem segments_of_cuts (tokenizer : Tokenizer) (text : Text) :
    let shown := emptied (withoutComments tokenizer text)
    (segments tokenizer text = [] ↔
      ∀ symbol ∈ Token.textWithoutComments (tokenizer (Text.trim Sym.isBlank text)), symbol.isBlank = true) ∧
    (segments tokenizer text = [] ∨ segments tokenizer text = (cuts shown).pieces.map (Text.trim Sym.isBlank) ∧
      (cuts shown).joined = shown ∧
      (segments tokenizer text).length = 1 + (cuts shown).count ['-', '>'] + (cuts shown).count [':', ':'] ∧
      (∀ segment ∈ segments tokenizer text, ∀ operator ∈ operators, ¬ Text.ofChars operator <:+: segment) ∧
      segments tokenizer text =
        ((split (.char ':') (.char ':') shown).flatMap (split (.char '-') (.char '>'))).map (Text.trim Sym.isBlank)) := by
  intro shown
  refine ⟨?_, ?_⟩
  · rw [segments_eq_nil_iff, emptied_eq_nil_iff, withoutComments, Text.trim_eq_nil_iff]
  by_cases empty : segments tokenizer text = []
  · exact .inl empty
  have held : shown.isEmpty = false := by
    rw [segments_eq_nil_iff] at empty
    simpa using empty
  have pass : segments tokenizer text = (cuts shown).pieces.map (Text.trim Sym.isBlank) := by
    rw [segments, if_neg (by rw [held]; exact Bool.false_ne_true), pieces_eq_cuts]
  refine .inr ⟨pass, joined_cuts shown, ?_, ?_, ?_⟩
  · rw [pass, List.length_map, length_pieces_cuts]
  · rw [pass]
    intro segment member operator listed inside
    obtain ⟨piece, held, rfl⟩ := List.mem_map.mp member
    exact not_infix_of_mem_pieces shown piece held operator listed (inside.trans (Text.trim_infix Sym.isBlank piece))
  · have swapped := splitTwice_eq_pieces ':' ':' '-' '>' (by decide) (by simp [operators, or_comm]) shown
    rw [pass, ← swapped]
    rfl

example : (cuts (Text.ofString "a:::b->::c")).pieces = ["a", ":b", "", "c"].map Text.ofString := by decide

end Chain
end AccessChain
