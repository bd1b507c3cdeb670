import AccessChain.Chain.Segments
import AccessChain.Proofs.Cutting
import AccessChain.Proofs.Lookahead
import AccessChain.Proofs.Nesting

/-! How many brackets are open behind a text. Emptying a kind of bracket keeps track of it, so in a text that leaves
none open, what stands in a group makes no difference to anything outside the group. -/
namespace AccessChain
namespace Chain.Pair

section Single
variable (bracket : Bracket)

/-- How many brackets are open behind a text if so many are in front of it. One that closes none is passed over. -/
def openAfter : Nat → Text → Nat
  | depth, [] => depth
  | depth, symbol :: rest =>
    if symbol = bracket.opener then openAfter (depth + 1) rest
    else if symbol = bracket.closer then openAfter (depth - 1) rest
    else openAfter depth rest

@[simp] theorem openAfter_nil (depth : Nat) : openAfter bracket depth [] = depth := rfl

@[simp] theorem openAfter_opener (depth : Nat) (rest : Text) :
    openAfter bracket depth (bracket.opener :: rest) = openAfter bracket (depth + 1) rest := by
  simp [openAfter]

@[simp] theorem openAfter_closer (depth : Nat) (rest : Text) :
    openAfter bracket depth (bracket.closer :: rest) = openAfter bracket (depth - 1) rest := by
  simp [openAfter, (Bracket.opener_ne_closer bracket bracket).symm]

theorem openAfter_plain (depth : Nat) (symbol : Sym) (rest : Text) (noOpener : symbol ≠ bracket.opener)
    (noCloser : symbol ≠ bracket.closer) : openAfter bracket depth (symbol :: rest) = openAfter bracket depth rest := by
  simp [openAfter, noOpener, noCloser]

theorem openAfter_append (depth : Nat) (left right : Text) :
    openAfter bracket depth (left ++ right) = openAfter bracket (openAfter bracket depth left) right := by
  fun_induction openAfter bracket depth left with
  | case1 depth => rfl
  | case2 depth rest ih => rw [List.cons_append, openAfter_opener, ih]
  | case3 depth rest _ ih => rw [List.cons_append, openAfter_closer, ih]
  | case4 depth symbol rest noOpener noCloser ih =>
    rw [List.cons_append, openAfter_plain bracket depth symbol _ noOpener noCloser, ih]

theorem openAfter_nested (depth : Nat) (text : Text) (nested : Nested [bracket] text) :
    openAfter bracket depth text = depth := by
  induction nested generalizing depth with
  | nil => rfl
  | plain symbol rest apart tail ih =>
    obtain ⟨noOpener, noCloser⟩ := apart bracket List.mem_cons_self
    rw [openAfter_plain bracket depth symbol rest noOpener noCloser, ih]
  | group other inner rest counted inside tail innerIh restIh =>
    obtain rfl := List.mem_singleton.mp counted
    rw [openAfter_opener, openAfter_append, innerIh, openAfter_closer, restIh, Nat.add_sub_cancel]

theorem openAfter_around (depth : Nat) (front group behind : Text) (nested : Nested [bracket] group) :
    openAfter bracket depth (front ++ (group ++ behind)) = openAfter bracket depth (front ++ behind) := by
  simp only [openAfter_append, openAfter_nested bracket _ group nested]

/-! What a walk has read of a group that is still open is of interest only if the group stays open. -/

theorem collapse_step (depth : Nat) (held : Text) (symbol : Sym) :
    ∃ out rest : Text, (openAfter bracket depth [symbol] = 0 → rest = []) ∧
      ∀ more, collapse [bracket.opener] [bracket.closer] depth held (symbol :: more) =
        out ++ collapse [bracket.opener] [bracket.closer] (openAfter bracket depth [symbol]) rest more := by
  by_cases opens : symbol = bracket.opener
  · subst opens
    cases depth with
    | zero => exact ⟨[bracket.opener], [], fun _ => rfl, fun more => by simp [collapse]⟩
    | succ depth => exact ⟨[], bracket.opener :: held, fun closed => by simp at closed, fun more => by simp [collapse]⟩
  by_cases closes : symbol = bracket.closer
  · subst closes
    rcases depth with _ | _ | depth
    · exact ⟨[bracket.closer], [], fun _ => rfl, fun more => by simp [collapse, opens]⟩
    · exact ⟨[bracket.closer], [], fun _ => rfl, fun more => by simp [collapse, opens]⟩
    · exact ⟨[], bracket.closer :: held, fun closed => by simp at closed, fun more => by simp [collapse, opens]⟩
  · have kept := openAfter_plain bracket depth symbol [] opens closes
    rw [openAfter_nil] at kept
    rw [kept]
    cases depth with
    | zero => exact ⟨[symbol], [], fun _ => rfl, fun more => by simp [collapse, opens]⟩
    | succ depth =>
      exact ⟨[], symbol :: held, fun closed => absurd closed (Nat.succ_ne_zero _), fun more => by
        simp [collapse, opens, closes]⟩

theorem collapse_append (depth : Nat) (held text : Text) (outside : depth = 0 → held = []) :
    ∃ out rest : Text, (openAfter bracket depth text = 0 → rest = []) ∧
      ∀ more, collapse [bracket.opener] [bracket.closer] depth held (text ++ more) =
        out ++ collapse [bracket.opener] [bracket.closer] (openAfter bracket depth text) rest more := by
  induction text generalizing depth held with
  | nil => exact ⟨[], held, outside, fun _ => rfl⟩
  | cons symbol text ih =>
    obtain ⟨first, next, inside, stepped⟩ := collapse_step bracket depth held symbol
    obtain ⟨out, rest, ended, walked⟩ := ih _ next inside
    rw [← List.singleton_append, openAfter_append]
    refine ⟨first ++ out, rest, ended, fun more => ?_⟩
    rw [List.append_assoc, List.singleton_append, stepped, walked, List.append_assoc]

theorem distance_step (depth : Nat) (symbol : Sym) :
    (symbol = bracket.closer ∧ depth = 0) ∨
      (openAfter bracket (depth + 1) [symbol] = openAfter bracket depth [symbol] + 1 ∧
        ∀ more, distance [bracket.opener] [bracket.closer] (depth + 1) (symbol :: more) =
          (distance [bracket.opener] [bracket.closer] (openAfter bracket depth [symbol] + 1) more).map (· + 1)) := by
  by_cases opens : symbol = bracket.opener
  · subst opens
    exact .inr ⟨by simp, fun more => by simp [distance]⟩
  by_cases closes : symbol = bracket.closer
  · subst closes
    cases depth with
    | zero => exact .inl ⟨rfl, rfl⟩
    | succ depth => exact .inr ⟨by simp, fun more => by simp [distance, opens]⟩
  · have plain := fun depth => openAfter_plain bracket depth symbol [] opens closes
    exact .inr ⟨by simp [plain], fun more => by simp [distance, opens, closes, plain]⟩

/-- A search for the bracket that closes the last of some open ones ends in a text or goes on behind it. -/
theorem distance_append (depth : Nat) (text : Text) :
    (∃ front back : Text, text = front ++ bracket.closer :: back ∧ openAfter bracket depth front = 0 ∧
      openAfter bracket (depth + 1) front = 1 ∧
      ∀ more, distance [bracket.opener] [bracket.closer] (depth + 1) (text ++ more) = some front.length) ∨
    (openAfter bracket (depth + 1) text = openAfter bracket depth text + 1 ∧
      ∀ more, distance [bracket.opener] [bracket.closer] (depth + 1) (text ++ more) =
        (distance [bracket.opener] [bracket.closer] (openAfter bracket depth text + 1) more).map
          (· + text.length)) := by
  induction text generalizing depth with
  | nil => exact .inr ⟨rfl, fun more => by simp⟩
  | cons symbol text ih =>
    rcases distance_step bracket depth symbol with ⟨rfl, rfl⟩ | ⟨kept, step⟩
    · refine .inl ⟨[], text, rfl, rfl, rfl, fun more => ?_⟩
      simp [distance, (Bracket.opener_ne_closer bracket bracket).symm]
    have parts : ∀ depth rest, openAfter bracket depth (symbol :: rest) =
        openAfter bracket (openAfter bracket depth [symbol]) rest :=
      fun depth => openAfter_append bracket depth [symbol]
    rcases ih (openAfter bracket depth [symbol]) with ⟨front, back, rfl, zero, one, found⟩ | ⟨further, goesOn⟩
    · refine .inl ⟨symbol :: front, back, rfl, by rwa [parts], by rwa [parts, kept], fun more => ?_⟩
      rw [List.cons_append, step, found]
      rfl
    · refine .inr ⟨by rw [parts, kept, parts _ text, further], fun more => ?_⟩
      rw [List.cons_append, step, goesOn, Option.map_map, parts _ text]
      rfl

theorem collapse_of_closed (depth : Nat) (held other text : Text) (closed : openAfter bracket (depth + 1) text = 0) :
    collapse [bracket.opener] [bracket.closer] (depth + 1) held text =
      collapse [bracket.opener] [bracket.closer] (depth + 1) other text := by
  rcases distance_append bracket depth text with ⟨front, back, _, _, _, found⟩ | ⟨kept, _⟩
  · have ends := found []
    rw [List.append_nil] at ends
    rw [collapse_inside, collapse_inside, ends]
  · rw [kept] at closed
    contradiction

/-- A nested part of a text that leaves no bracket open is either emptied by itself, or it is in a group and left out
of the text. -/
theorem strip_around (front behind : Text) (closed : openAfter bracket 0 (front ++ behind) = 0) :
    ∃ left right : Text, (∀ group, Nested [bracket] group →
        strip bracket (front ++ (group ++ behind)) = left ++ (strip bracket group ++ right)) ∨
      ∀ group, Nested [bracket] group → strip bracket (front ++ (group ++ behind)) = left := by
  obtain ⟨out, held, ended, walked⟩ := collapse_append bracket 0 [] front (fun _ => rfl)
  rw [openAfter_append] at closed
  cases reached : openAfter bracket 0 front with
  | zero =>
    rw [reached] at walked ended
    obtain rfl := ended rfl
    refine ⟨out, strip bracket behind, .inl fun group nested => ?_⟩
    rw [strip, stripContent, walked, ← strip_append bracket group behind nested]
    rfl
  | succ depth =>
    rw [reached] at walked closed
    refine ⟨out ++ collapse [bracket.opener] [bracket.closer] (depth + 1) [] behind, [], .inr fun group nested => ?_⟩
    rw [strip, stripContent, walked, collapse_nested bracket depth held group behind nested,
      collapse_of_closed bracket depth _ [] behind closed]

/-- The bracket that closes a first one stands before a nested part of the text or behind it, or nowhere, whatever the
part is. -/
theorem distance_around (front behind : Text) :
    (∃ inner back : Text, front = inner ++ bracket.closer :: back ∧ openAfter bracket 0 inner = 0 ∧
      openAfter bracket 1 inner = 1 ∧ ∀ group, Nested [bracket] group →
        distance [bracket.opener] [bracket.closer] 1 (front ++ (group ++ behind)) = some inner.length) ∨
    (∃ inner back : Text, behind = inner ++ bracket.closer :: back ∧ openAfter bracket 0 (front ++ inner) = 0 ∧
      openAfter bracket 1 (front ++ inner) = 1 ∧ ∀ group, Nested [bracket] group →
        distance [bracket.opener] [bracket.closer] 1 (front ++ (group ++ behind)) =
          some (front ++ (group ++ inner)).length) ∨
    ∀ group, Nested [bracket] group →
      distance [bracket.opener] [bracket.closer] 1 (front ++ (group ++ behind)) = none := by
  rcases distance_append bracket 0 front with ⟨inner, back, whole, zero, one, found⟩ | ⟨kept, further⟩
  · exact .inl ⟨inner, back, whole, zero, one, fun group _ => found _⟩
  have past : ∀ group, Nested [bracket] group →
      distance [bracket.opener] [bracket.closer] 1 (front ++ (group ++ behind)) =
        (distance [bracket.opener] [bracket.closer] (openAfter bracket 0 front + 1) behind).map
          (· + (front ++ group).length) := by
    intro group nested
    have walked := further (group ++ behind)
    rw [distance_nested bracket _ (Nat.succ_pos _) _ _ nested, Option.map_map] at walked
    refine walked.trans (congrArg (Option.map · _) (funext fun found => ?_))
    simp only [Function.comp, List.length_append]
    omega
  rcases distance_append bracket (openAfter bracket 0 front) behind with
    ⟨inner, back, whole, zero, one, found⟩ | ⟨_, goesOn⟩
  · refine .inr (.inl ⟨inner, back, whole, by rw [openAfter_append, zero], by rw [openAfter_append, kept, one],
      fun group nested => ?_⟩)
    have there := found []
    rw [List.append_nil] at there
    rw [past group nested, there]
    simp only [Option.map_some, List.length_append, Option.some.injEq]
    omega
  · refine .inr (.inr fun group nested => ?_)
    have there := goesOn []
    rw [List.append_nil] at there
    rw [past group nested, there]
    rfl

end Single
end Chain.Pair

namespace Chain
open Pair

/-- The front of an instantiation in brackets, up to the blank behind its keyword. -/
def opensInstantiation (text : Text) : Bool :=
  Text.startsWith ['(', 'n', 'e', 'w'] text && (text.drop 4).head?.any Sym.isBlank

theorem opensInstantiation_before (front behind : Text) (held : front ≠ []) :
    opensInstantiation (front ++ .char '(' :: behind) = opensInstantiation front := by
  obtain ⟨first, rest, rfl⟩ := List.exists_cons_of_ne_nil held
  have starts : Text.startsWith ['(', 'n', 'e', 'w'] (first :: rest ++ .char '(' :: behind) =
      Text.startsWith ['(', 'n', 'e', 'w'] (first :: rest) := by
    have word := Text.startsWith_before (.char '(') ['n', 'e', 'w'] rest behind (by decide)
    have parts : ∀ text, Text.startsWith ['(', 'n', 'e', 'w'] (first :: text) =
        (.char '(' == first && Text.startsWith ['n', 'e', 'w'] text) := fun _ => rfl
    rw [List.cons_append, parts, parts, word]
  rw [opensInstantiation, opensInstantiation, starts]
  cases begun : Text.startsWith ['(', 'n', 'e', 'w'] (first :: rest) with
  | false => rfl
  | true =>
    obtain ⟨more, whole⟩ := (Text.startsWith_iff _ _).mp begun
    rw [whole, List.append_assoc]
    exact Text.head?_any_before (.char '(') Sym.isBlank more behind (by decide +kernel)

theorem unwrap_closed (inner behind : Text)
    (opens : opensInstantiation (.char '(' :: (inner ++ .char ')' :: behind)) = true)
    (closed : distance [.char '('] [.char ')'] 1 (inner ++ .char ')' :: behind) = some inner.length) :
    unwrapInstantiation (.char '(' :: (inner ++ .char ')' :: behind)) = inner ++ behind := by
  have found : matching? [.char '('] [.char ')'] (.char '(' :: (inner ++ .char ')' :: behind)) 0 =
      some (inner.length + 1) := by
    simp [matching?, closed]
  rw [opensInstantiation] at opens
  rw [unwrapInstantiation, if_pos opens, found]
  simp [List.take_succ_cons, List.drop_append]

theorem unwrap_unclosed (text : Text) (open_ : distance [.char '('] [.char ')'] 1 text = none) :
    unwrapInstantiation (.char '(' :: text) = .char '(' :: text := by
  have unmatched : matching? [.char '('] [.char ')'] (.char '(' :: text) 0 = none := by
    simp [matching?, open_]
  rw [unwrapInstantiation, unmatched]
  split <;> rfl

theorem openAfter_unwrapped (bracket : Bracket) (inner behind : Text) (zero : openAfter .round 0 inner = 0)
    (one : openAfter .round 1 inner = 1) :
    openAfter bracket 0 (.char '(' :: (inner ++ .char ')' :: behind)) = openAfter bracket 0 (inner ++ behind) := by
  by_cases round : bracket = .round
  · subst round
    have opener := openAfter_opener .round 0 (inner ++ .char ')' :: behind)
    have closer := openAfter_closer .round 1 behind
    rw [openAfter_append, one] at opener
    rw [openAfter_append, zero]
    exact opener.trans closer
  · have apart : ∀ symbol ∈ [Bracket.round.opener, Bracket.round.closer],
        symbol ≠ bracket.opener ∧ symbol ≠ bracket.closer := by
      cases bracket <;> simp_all [Bracket.opener, Bracket.closer]
    have plain := fun symbol member depth rest =>
      openAfter_plain bracket depth symbol rest (apart symbol member).1 (apart symbol member).2
    rw [plain (.char '(') (by simp [Bracket.opener]), openAfter_append, plain (.char ')') (by simp [Bracket.closer]),
      ← openAfter_append]

/-- Taking the brackets off an instantiation leaves a group behind the front of a text as it is and goes on in the
same way whatever is in the group. -/
theorem unwrap_around (front behind : Text) (held : front ≠ []) :
    ∃ left right : Text, (∀ bracket, openAfter bracket 0 (left ++ right) = openAfter bracket 0 (front ++ behind)) ∧
      ∀ group, Nested [.round] (.char '(' :: group) →
        unwrapInstantiation (front ++ (.char '(' :: group ++ behind)) = left ++ (.char '(' :: group ++ right) := by
  have opens := fun group => opensInstantiation_before front (group ++ behind) held
  cases opened : opensInstantiation front with
  | false =>
    refine ⟨front, behind, fun _ => rfl, fun group _ => ?_⟩
    have unopened := opens group
    rw [opened, opensInstantiation] at unopened
    rw [unwrapInstantiation, List.cons_append, if_neg (by rw [unopened]; exact Bool.false_ne_true)]
  | true =>
    obtain ⟨rest, rfl⟩ : ∃ rest, front = .char '(' :: rest := by
      obtain ⟨rest, same⟩ := (Text.startsWith_iff _ _).mp (Bool.and_eq_true_iff.mp opened).1
      exact ⟨_, same⟩
    rw [opened] at opens
    rcases distance_around .round rest behind with
      ⟨inner, back, rfl, zero, one, found⟩ | ⟨inner, back, rfl, zero, one, found⟩ | missing
    · refine ⟨inner ++ back, behind, fun bracket => ?_, fun group nested => ?_⟩
      · have balance := openAfter_unwrapped bracket inner (back ++ behind) zero one
        simpa [Bracket.closer] using balance.symm
      · have begun := opens group
        have closed := found _ nested
        have whole := unwrap_closed inner (back ++ (.char '(' :: group ++ behind))
          (by simpa [Bracket.closer] using begun) (by simpa [Bracket.opener, Bracket.closer] using closed)
        simpa [Bracket.closer] using whole
    · refine ⟨rest, inner ++ back, fun bracket => ?_, fun group nested => ?_⟩
      · have balance := openAfter_unwrapped bracket (rest ++ inner) back zero one
        simpa [Bracket.closer] using balance.symm
      · have begun := opens group
        have closed := found _ nested
        have whole := unwrap_closed (rest ++ (.char '(' :: group ++ inner)) back
          (by simpa [Bracket.closer] using begun) (by simpa [Bracket.opener, Bracket.closer] using closed)
        simpa [Bracket.closer] using whole
    · exact ⟨.char '(' :: rest, behind, fun _ => rfl, fun group nested => unwrap_unclosed _ (missing _ nested)⟩

/-! Signatures. One that begins before a symbol which can be no part of any ends before it. -/

/-- A symbol that no signature goes on over. -/
structure EndsSignature (mark : Sym) : Prop where
  blank : mark.isBlank = false
  word : mark.isWord = false
  ampersand : mark ∉ Text.ofChars ['&']
  bracket : mark ∉ Text.ofChars ['(']
  letter : mark ∉ Text.ofChars ['f', 'u', 'n', 'c', 't', 'i', 'o', 'n']

section Signatures
variable {mark : Sym} (ends : EndsSignature mark)
include ends

theorem isSignature_before (text more : Text) : isSignature (text ++ mark :: more) = isSignature text := by
  have dropped := fun test part => Text.dropWhile_before mark test part more
  have reference := Text.startsWith_before mark ['&'] (text.dropWhile Sym.isBlank) more ends.ampersand
  simp only [isSignature, dropped Sym.isBlank _ ends.blank, reference]
  split
  · next starts =>
    obtain ⟨rest, same⟩ := (Text.startsWith_iff _ _).mp starts
    have behind : ∀ back, (text.dropWhile Sym.isBlank ++ back).drop 1 = (text.dropWhile Sym.isBlank).drop 1 ++ back := by
      intro back
      rw [same]
      rfl
    rw [behind, dropped Sym.isBlank _ ends.blank, dropped Sym.isWord _ ends.word, dropped Sym.isBlank _ ends.blank,
      Text.startsWith_before mark ['('] _ more ends.bracket]
  · rw [dropped Sym.isWord _ ends.word, dropped Sym.isBlank _ ends.blank, Text.startsWith_before mark ['('] _ more ends.bracket]

theorem holdsSignature_before (inWord : Bool) (text more : Text) :
    holdsSignature inWord (text ++ mark :: more) = (holdsSignature inWord text || holdsSignature false more) := by
  have keyword := fun text => Text.startsWith_before mark ['f', 'u', 'n', 'c', 't', 'i', 'o', 'n'] text more ends.letter
  induction text generalizing inWord with
  | nil =>
    have noKeyword : Text.startsWith ['f', 'u', 'n', 'c', 't', 'i', 'o', 'n'] (mark :: more) = false := keyword []
    simp [holdsSignature, noKeyword, ends.word]
  | cons symbol text ih =>
    have starts := keyword (symbol :: text)
    rw [List.cons_append] at starts
    rw [List.cons_append, holdsSignature, holdsSignature, starts, ih, ← Bool.or_assoc]
    cases begun : Text.startsWith ['f', 'u', 'n', 'c', 't', 'i', 'o', 'n'] (symbol :: text) with
    | false => simp
    | true =>
      obtain ⟨rest, same⟩ := (Text.startsWith_iff _ _).mp begun
      obtain ⟨_, rfl⟩ := List.cons.inj same
      have behind := isSignature_before ends rest more
      simp [behind]

end Signatures

theorem endsSignature_of_isQuote (quote : Sym) (quoted : Extent.isQuote quote = true) : EndsSignature quote := by
  obtain ⟨value, listed, rfl⟩ := Extent.exists_of_isQuote quote quoted
  simp only [List.mem_cons, List.not_mem_nil, or_false] at listed
  rcases listed with rfl | rfl | rfl <;> exact ⟨by decide +kernel, by decide +kernel, by decide, by decide, by decide⟩

/-- A text in round brackets. -/
def enclosed (inner : Text) : Text := .char '(' :: (inner ++ [.char ')'])

theorem nested_enclosed (bracket : Bracket) (inner : Text) (nested : Nested Bracket.all inner) :
    Nested [bracket] (enclosed inner) :=
  (Nested.enclose _ .round inner (Bracket.mem_all _) nested).only _ bracket (Bracket.mem_all _)

theorem strip_enclosed (inner : Text) (nested : Nested Bracket.all inner) :
    strip .curly (enclosed inner) = enclosed (strip .curly inner) := by
  rw [enclosed, strip_cons_plain .curly _ _ (by decide),
    strip_append .curly inner _ (nested.only _ .curly (Bracket.mem_all _))]
  rfl

theorem openAfter_blanks (bracket : Bracket) (depth : Nat) (blanks : Text)
    (blank : ∀ symbol ∈ blanks, symbol.isBlank = true) : openAfter bracket depth blanks = depth := by
  apply openAfter_nested bracket depth blanks (Nested.of_plain _ blanks _)
  intro symbol member other _
  have rejected : Sym.isBlank other.opener = false ∧ Sym.isBlank other.closer = false := by cases other <;> decide +kernel
  constructor
  · rintro rfl
    exact Bool.false_ne_true (rejected.1.symm.trans (blank _ member))
  · rintro rfl
    exact Bool.false_ne_true (rejected.2.symm.trans (blank _ member))

theorem trim_around (front behind : Text) : ∃ right : Text,
    (∀ bracket, openAfter bracket 0 (front.dropWhile Sym.isBlank ++ right) = openAfter bracket 0 (front ++ behind)) ∧
      ∀ inner, Text.trim Sym.isBlank (front ++ (enclosed inner ++ behind)) =
        front.dropWhile Sym.isBlank ++ (enclosed inner ++ right) := by
  refine ⟨(behind.reverse.dropWhile Sym.isBlank).reverse, fun bracket => ?_, fun inner => ?_⟩
  · have parted : front.takeWhile Sym.isBlank ++ front.dropWhile Sym.isBlank = front := List.takeWhile_append_dropWhile
    have tail : (behind.reverse.dropWhile Sym.isBlank).reverse ++ (behind.reverse.takeWhile Sym.isBlank).reverse = behind := by
      rw [← List.reverse_append, List.takeWhile_append_dropWhile, List.reverse_reverse]
    have whole := congrArg (openAfter bracket 0) (congrArg₂ (· ++ ·) parted tail)
    simp only [openAfter_append] at whole ⊢
    rw [openAfter_blanks bracket 0 _ (fun symbol member => List.mem_takeWhile_imp member),
      openAfter_blanks bracket _ _ (fun symbol member => List.mem_takeWhile_imp (List.mem_reverse.mp member))] at whole
    exact whole
  · have opener : Sym.isBlank (.char '(') = false := by decide +kernel
    have closer : Sym.isBlank (.char ')') = false := by decide +kernel
    have before := Text.dropWhile_before (.char '(') Sym.isBlank front (inner ++ [.char ')'] ++ behind) opener
    have after := Text.dropWhile_before (.char ')') Sym.isBlank behind.reverse
      (front.dropWhile Sym.isBlank ++ .char '(' :: inner).reverse closer
    have text : front ++ (enclosed inner ++ behind) = front ++ .char '(' :: (inner ++ [.char ')'] ++ behind) := rfl
    have reversed : (front.dropWhile Sym.isBlank ++ Sym.char '(' :: (inner ++ [Sym.char ')'] ++ behind)).reverse =
        behind.reverse ++ .char ')' :: (front.dropWhile Sym.isBlank ++ .char '(' :: inner).reverse := by simp
    rw [Text.trim, text, before, reversed, after]
    simp [enclosed]

/-- Whether the bodies of closures in a text are emptied: those of all its curly brackets are if there is a signature. -/
def isSigned (text : Text) : Bool := holdsSignature false (unwrapInstantiation text)

/-- No round bracket of a text is left open when its curly ones are emptied for the sake of a signature in it. -/
def StaysClosed (text : Text) : Prop :=
  isSigned text = true → openAfter .round 0 (strip .curly (unwrapInstantiation text)) = 0

instance (text : Text) : Decidable (StaysClosed text) := by
  unfold StaysClosed
  infer_instance

section Around
variable (front behind inner other : Text) (nested : Nested Bracket.all inner) (otherNested : Nested Bracket.all other)
include nested otherNested

theorem strip_around_enclosed (closed : openAfter .round 0 (front ++ behind) = 0) :
    strip .round (front ++ (enclosed inner ++ behind)) = strip .round (front ++ (enclosed other ++ behind)) := by
  have emptied : ∀ inner, Nested Bracket.all inner → strip .round (enclosed inner) = [.char '(', .char ')'] :=
    fun inner nested => strip_group .round inner [] (nested.only _ .round (Bracket.mem_all _))
  obtain ⟨left, right, parted | gone⟩ := strip_around .round front behind closed
  · rw [parted _ (nested_enclosed .round inner nested), parted _ (nested_enclosed .round other otherNested),
      emptied inner nested, emptied other otherNested]
  · rw [gone _ (nested_enclosed .round inner nested), gone _ (nested_enclosed .round other otherNested)]

/-- What stands between the brackets of a call makes no difference to a text with its call arguments emptied, as long as
no bracket is open behind it and the text holds a signature with the one as with the other. -/
theorem emptied_around (held : front ≠ []) (closed : ∀ bracket, openAfter bracket 0 (front ++ behind) = 0)
    (signed : isSigned (front ++ (enclosed inner ++ behind)) = isSigned (front ++ (enclosed other ++ behind)))
    (bodies : StaysClosed (front ++ (enclosed inner ++ behind))) :
    emptied (front ++ (enclosed inner ++ behind)) = emptied (front ++ (enclosed other ++ behind)) := by
  obtain ⟨left, right, balance, unwrapped⟩ := unwrap_around front behind held
  have balanced := fun bracket => (balance bracket).trans (closed bracket)
  have whole : unwrapInstantiation (front ++ (enclosed inner ++ behind)) = left ++ (enclosed inner ++ right) :=
    unwrapped _ (nested_enclosed .round inner nested)
  have otherWhole : unwrapInstantiation (front ++ (enclosed other ++ behind)) = left ++ (enclosed other ++ right) :=
    unwrapped _ (nested_enclosed .round other otherNested)
  rw [isSigned, isSigned, whole, otherWhole] at signed
  rw [StaysClosed, isSigned, whole, signed] at bodies
  simp only [emptied, whole, otherWhole, signed]
  by_cases function : holdsSignature false (left ++ (enclosed other ++ right)) = true
  · have rounds := bodies function
    simp only [function, if_true]
    change strip .round (strip .curly _) = strip .round (strip .curly _)
    obtain ⟨front, behind, parted | gone⟩ := strip_around .curly left right (balanced .curly)
    · have bodiless : ∀ inner, Nested Bracket.all inner → strip .curly (left ++ (enclosed inner ++ right)) =
          front ++ (enclosed (strip .curly inner) ++ behind) := by
        intro inner nested
        rw [parted _ (nested_enclosed .curly inner nested), strip_enclosed inner nested]
      have kept := nested_strip .curly _ (Bracket.mem_all _) inner nested
      have otherKept := nested_strip .curly _ (Bracket.mem_all _) other otherNested
      rw [bodiless inner nested, openAfter_around .round 0 front _ behind (nested_enclosed .round _ kept)] at rounds
      rw [bodiless inner nested, bodiless other otherNested]
      exact strip_around_enclosed front behind _ _ kept otherKept rounds
    · rw [gone _ (nested_enclosed .curly inner nested), gone _ (nested_enclosed .curly other otherNested)]
  · simp only [function]
    exact strip_around_enclosed left right inner other nested otherNested (balanced .round)

end Around

end Chain
end AccessChain
