import AccessChain.Hover.Answer

/-! The text of an answer: a heading, and below it the segments of the chain as code with arrows between them. Where no
segment holds a backtick, the segments are what a reader finds between backticks. -/
namespace AccessChain.Hover

/-- The line that shows a chain. -/
inductive ShowsLine : List Text → Text → Prop where
  | nil : ShowsLine [] []
  | last (segment : Text) : ShowsLine [segment] (Text.ofString "`" ++ segment ++ Text.ofString "`")
  | more (segment next : Text) (rest : List Text) (line : Text) (shown : ShowsLine (next :: rest) line) :
      ShowsLine (segment :: next :: rest) (Text.ofString "`" ++ segment ++ Text.ofString "` → " ++ line)

/-- The parts of a text between backticks, from left to right. The first argument is what has been read since a backtick
that is still open. -/
def codeSpans : Option Text → Text → List Text
  | _, [] => []
  | none, symbol :: rest => codeSpans (if symbol = .char '`' then some [] else none) rest
  | some inside, symbol :: rest =>
    if symbol = .char '`' then inside :: codeSpans none rest else codeSpans (some (inside ++ [symbol])) rest

/-- A text shows a chain in the form of an answer, and gives its segments back unless one of them holds a backtick. -/
structure Shows (chain : List Text) (markdown : Text) : Prop where
  form : ∃ line, markdown = Text.ofString "**Access chain**\n\n" ++ line ∧ ShowsLine chain line
  segments : (∀ segment ∈ chain, .char '`' ∉ segment) → codeSpans none markdown = chain

theorem codeSpans_outside (text rest : Text) (plain : .char '`' ∉ text) :
    codeSpans none (text ++ rest) = codeSpans none rest := by
  induction text with
  | nil => rfl
  | cons symbol text ih =>
    rw [List.mem_cons, not_or] at plain
    obtain ⟨other, plain⟩ := plain
    rw [List.cons_append, codeSpans, if_neg (Ne.symm other), ih plain]

theorem codeSpans_inside (inside segment rest : Text) (plain : .char '`' ∉ segment) :
    codeSpans (some inside) (segment ++ .char '`' :: rest) = (inside ++ segment) :: codeSpans none rest := by
  induction segment generalizing inside with
  | nil => rw [List.nil_append, codeSpans, if_pos rfl, List.append_nil]
  | cons symbol segment ih =>
    rw [List.mem_cons, not_or] at plain
    obtain ⟨other, plain⟩ := plain
    rw [List.cons_append, codeSpans, if_neg (Ne.symm other), ih _ plain, List.append_assoc, List.singleton_append]

theorem codeSpans_segment (segment rest : Text) (plain : .char '`' ∉ segment) :
    codeSpans none (Text.ofString "`" ++ segment ++ .char '`' :: rest) = segment :: codeSpans none rest := by
  change codeSpans none (.char '`' :: (segment ++ .char '`' :: rest)) = _
  rw [codeSpans, if_pos rfl, codeSpans_inside [] segment rest plain, List.nil_append]

theorem codeSpans_of_showsLine (chain : List Text) (line : Text) (shown : ShowsLine chain line)
    (plain : ∀ segment ∈ chain, .char '`' ∉ segment) : codeSpans none line = chain := by
  induction shown with
  | nil => rfl
  | last segment => exact codeSpans_segment segment [] (plain segment List.mem_cons_self)
  | more segment next rest line shown ih =>
    obtain ⟨here, later⟩ := List.forall_mem_cons.mp plain
    have arrow : Text.ofString "`" ++ segment ++ Text.ofString "` → " ++ line =
        Text.ofString "`" ++ segment ++ .char '`' :: (Text.ofString " → " ++ line) := List.append_assoc _ _ _
    rw [arrow, codeSpans_segment segment _ here, codeSpans_outside _ line (by decide), ih later]

theorem showsLine_codeLine (chain : List Text) :
    ShowsLine chain (List.intercalate (Text.ofString " → ") (chain.map codeOf)) := by
  induction chain with
  | nil => exact .nil
  | cons segment chain ih =>
    cases chain with
    | nil =>
      have line := ShowsLine.last segment
      rwa [List.map_singleton, List.intercalate_singleton]
    | cons next rest =>
      have line := ShowsLine.more segment next rest _ ih
      rw [List.map_cons, List.map_cons, List.intercalate_cons_cons]
      simpa [codeOf, Text.ofString, Text.ofChars] using line

theorem shows_markdownOf (chain : List Text) : Shows chain (markdownOf chain) := by
  refine ⟨⟨_, rfl, showsLine_codeLine chain⟩, fun plain => ?_⟩
  rw [markdownOf, codeSpans_outside _ _ (by decide)]
  exact codeSpans_of_showsLine chain _ (showsLine_codeLine chain) plain

-- A segment that holds a backtick is not found again.
example : codeSpans none (markdownOf [Text.ofString "`ls`", Text.ofString "b"]) ≠
    [Text.ofString "`ls`", Text.ofString "b"] := by
  decide +kernel

end AccessChain.Hover
