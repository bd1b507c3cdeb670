import AccessChain.Proofs.Cells
import AccessChain.Proofs.Cutting
import Mathlib.Data.Bool.AllAny

/-! Where an expression starts, said without a scan: behind the last place at which something stops it.
Whether a place does is a matter of counting brackets between it and the cursor. -/
namespace AccessChain

/-- What decides where an expression starts. -/
structure Sight where
  code : List UInt8
  tokens : List Token
  boundary : KindSet

/-- The kind of the token before a place among tokens, of which `before` stands in front. -/
def kindBefore (before : Option TokenKind) (tokens : List Token) : Nat → Option TokenKind
  | 0 => before
  | index + 1 => (tokens[index]?).map Token.kind

namespace Sight
open Expression

section Places
variable (sight : Sight)

def owner (place : Nat) : Nat := sight.tokens.findIdx fun token => token.covers place

def kind? (place : Nat) : Option TokenKind := (sight.tokens[sight.owner place]?).map Token.kind

def previous? (place : Nat) : Option TokenKind := kindBefore none sight.tokens (sight.owner place)

/-- Comments are never seen, and no string is if the last token is one. -/
def IsVisible (place : Nat) : Prop :=
  sight.kind? place ≠ some .lineComment ∧ sight.kind? place ≠ some .blockComment ∧
    ¬ (sight.kind? place = some .stringLiteral ∧ sight.tokens.getLast?.map Token.kind = some .stringLiteral)

instance (place : Nat) : Decidable (sight.IsVisible place) := by
  unfold IsVisible
  infer_instance

/-- How many visible bytes of a kind there are from a place on. -/
def count (kind? : UInt8 → Option Bracket) (bracket : Bracket) (place : Nat) : Nat :=
  (List.range' place (sight.code.length - place)).countP fun other =>
    sight.IsVisible other ∧ (sight.code[other]?).bind kind? = some bracket

def opened : Bracket → Nat → Nat := sight.count Bracket.opening?

def closed : Bracket → Nat → Nat := sight.count Bracket.closing?

/-- A double colon outside all brackets, before which only the rest of a class name may stand. -/
def IsStaticColon (place : Nat) : Prop :=
  sight.IsVisible place ∧ sight.kind? place = some .doubleColon ∧
    ∀ bracket, sight.opened bracket place = sight.closed bracket place

/-- What stops an expression at a place. -/
inductive Stops (place : Nat) : Prop where
  | block (visible : sight.IsVisible place) (closing : sight.code[place]? = some 0x7D)
      (outside : sight.opened .round place = sight.closed .round place)
      (noVariable : sight.previous? place ≠ some .varName)
  | opener (bracket : Bracket) (visible : sight.IsVisible place)
      (opening : (sight.code[place]?).bind Bracket.opening? = some bracket)
      (unclosed : sight.closed bracket place < sight.opened bracket place)
  | delimiter (byte : UInt8) (visible : sight.IsVisible place) (found : sight.code[place]? = some byte)
      (noBracket : Bracket.opening? byte = none ∧ Bracket.closing? byte = none)
      (balanced : ∀ bracket, sight.opened bracket place = sight.closed bracket place)
      (ends : byte ∈ [0x2E, 0x2C, 0x3F, 0x3B] ∨ (∃ kind ∈ sight.boundary, sight.kind? place = some kind) ∨
        (byte = 0x3A ∧ sight.kind? place ≠ some .doubleColon))
  | staticName (passed : Nat) (behind : place < passed) (inside : passed < sight.code.length)
      (colon : sight.IsStaticColon passed)
      (noName : sight.kind? place ≠ some .doubleColon ∧ sight.kind? place ≠ some .identifier ∧
        sight.kind? place ≠ some .namespaceSeparator ∧ sight.kind? place ≠ some (.keyword .staticKw))

/-- An expression starts behind the last place that stops it, and at the front if there is none. -/
def StartsAt (start : Nat) : Prop :=
  (∀ place, start ≤ place → place < sight.code.length → ¬ sight.Stops place) ∧
    (start = 0 ∨ ∃ place, start = place + 1 ∧ place < sight.code.length ∧ sight.Stops place)

def cellAt (place : Nat) : Cell :=
  ⟨(sight.code[place]?).getD 0, sight.kind? place, sight.previous? place⟩

def inString : Bool := sight.tokens.getLast?.any fun token => token.kind == .stringLiteral

theorem isHidden_cellAt (place : Nat) :
    (sight.cellAt place).isHidden sight.inString = true ↔ ¬ sight.IsVisible place := by
  have ends : sight.inString = true ↔ sight.tokens.getLast?.map Token.kind = some .stringLiteral := by
    unfold inString
    cases sight.tokens.getLast? <;> simp
  unfold Cell.isHidden cellAt IsVisible
  rw [← ends]
  cases sight.kind? place with
  | none => simp
  | some kind => cases kind <;> simp [TokenKind.isComment]

theorem count_here (kind? : UInt8 → Option Bracket) (bracket : Bracket) (place : Nat)
    (inside : place < sight.code.length) :
    sight.count kind? bracket place = sight.count kind? bracket (place + 1) +
      if sight.IsVisible place ∧ (sight.code[place]?).bind kind? = some bracket then 1 else 0 := by
  obtain ⟨more, rest⟩ : ∃ more, sight.code.length - place = more + 1 :=
    ⟨sight.code.length - place - 1, by omega⟩
  have fewer : sight.code.length - (place + 1) = more := by omega
  unfold count
  rw [rest, fewer, List.range'_succ, List.countP_cons]
  simp only [decide_eq_true_eq]

/-- The progress that a scan has made when it comes to the byte before a place. -/
structure Describes (progress : Progress) (place : Nat) : Prop where
  waiting (bracket : Bracket) :
    progress.depth.count bracket + sight.opened bracket place = sight.closed bracket place
  passed : progress.inStaticName = true ↔
    ∃ passed, place ≤ passed ∧ passed < sight.code.length ∧ sight.IsStaticColon passed

theorem describes_start : sight.Describes Progress.start sight.code.length where
  waiting bracket := by
    cases bracket <;> simp [Progress.start, Depth.zero, Depth.count, opened, closed, count]
  passed := by
    constructor
    · intro passed
      contradiction
    · rintro ⟨place, behind, inside, _⟩
      omega

theorem passed_here (place : Nat) (inside : place < sight.code.length) :
    (∃ passed, place ≤ passed ∧ passed < sight.code.length ∧ sight.IsStaticColon passed) ↔
      (∃ passed, place + 1 ≤ passed ∧ passed < sight.code.length ∧ sight.IsStaticColon passed) ∨
        sight.IsStaticColon place := by
  constructor
  · rintro ⟨passed, behind, bound, colon⟩
    rcases Nat.eq_or_lt_of_le behind with rfl | later
    · exact Or.inr colon
    · exact Or.inl ⟨passed, later, bound, colon⟩
  · rintro (⟨passed, behind, bound, colon⟩ | colon)
    · exact ⟨passed, Nat.le_of_succ_le behind, bound, colon⟩
    · exact ⟨place, Nat.le_refl place, inside, colon⟩

theorem byte_at (place : Nat) (inside : place < sight.code.length) :
    sight.code[place]? = some (sight.cellAt place).byte := by
  simp [cellAt, List.getElem?_eq_getElem inside]

/-- What the lexer promises: a double colon holds no bracket. -/
def PlainColons : Prop := ∀ place byte, sight.kind? place = some .doubleColon →
  sight.code[place]? = some byte → Bracket.opening? byte = none ∧ Bracket.closing? byte = none

theorem isBoundary_cellAt (place : Nat) :
    (sight.cellAt place).isBoundary sight.boundary = true ↔
      (sight.cellAt place).byte ∈ [0x2E, 0x2C, 0x3F, 0x3B] ∨
        (∃ kind ∈ sight.boundary, sight.kind? place = some kind) ∨
        ((sight.cellAt place).byte = 0x3A ∧ sight.kind? place ≠ some .doubleColon) := by
  have kinds : (sight.cellAt place).kind = sight.kind? place := rfl
  unfold Cell.isBoundary
  rw [kinds]
  cases sight.kind? place with
  | none => simp [delimiters]
  | some kind => simp [delimiters, or_assoc]

theorem isShown_cellAt (place : Nat) :
    (sight.cellAt place).isHidden sight.inString = false ↔ sight.IsVisible place := by
  rw [← Bool.not_eq_true, sight.isHidden_cellAt place, Classical.not_not]

end Places

section Steps
variable (sight : Sight) (progress : Progress) (place : Nat) (inside : place < sight.code.length)
  (described : sight.Describes progress (place + 1))

include inside described

theorem waiting_other (bracket : Bracket) (noOpening : Bracket.opening? (sight.cellAt place).byte ≠ some bracket)
    (noClosing : Bracket.closing? (sight.cellAt place).byte ≠ some bracket) :
    progress.depth.count bracket + sight.opened bracket place = sight.closed bracket place := by
  have before := described.waiting bracket
  unfold opened closed at before ⊢
  rw [count_here _ _ _ _ inside, count_here _ _ _ _ inside, sight.byte_at place inside]
  simpa [noOpening, noClosing] using before

theorem waiting_opening (visible : sight.IsVisible place) (bracket : Bracket)
    (opening : Bracket.opening? (sight.cellAt place).byte = some bracket) :
    progress.depth.count bracket + sight.opened bracket place = sight.closed bracket place + 1 := by
  have before := described.waiting bracket
  have noClosing : Bracket.closing? (sight.cellAt place).byte = none :=
    closing?_of_opening? _ bracket opening
  unfold opened closed at before ⊢
  rw [count_here _ _ _ _ inside, count_here _ _ _ _ inside, sight.byte_at place inside]
  simp only [visible, opening, noClosing, Option.bind_some, and_self, and_false, if_true, if_false, reduceCtorEq]
  omega

theorem waiting_closing (visible : sight.IsVisible place) (bracket : Bracket)
    (closing : Bracket.closing? (sight.cellAt place).byte = some bracket) :
    progress.depth.count bracket + 1 + sight.opened bracket place = sight.closed bracket place := by
  have before := described.waiting bracket
  have noOpening : Bracket.opening? (sight.cellAt place).byte = none :=
    opening?_of_closing? _ bracket closing
  unfold opened closed at before ⊢
  rw [count_here _ _ _ _ inside, count_here _ _ _ _ inside, sight.byte_at place inside]
  simp only [visible, closing, noOpening, Option.bind_some, and_self, and_false, if_true, if_false, reduceCtorEq]
  omega

theorem waiting_other_closing (bracket other : Bracket) (different : other ≠ bracket)
    (closing : Bracket.closing? (sight.cellAt place).byte = some bracket) :
    progress.depth.count other + sight.opened other place = sight.closed other place := by
  refine waiting_other sight progress place inside described other ?_ ?_
  · rw [opening?_of_closing? _ bracket closing]
    exact (Option.some_ne_none _).symm
  · rw [closing]
    exact fun same => different (Option.some.inj same).symm

theorem describes_hidden (hidden : ¬ sight.IsVisible place) : sight.Describes progress place where
  waiting bracket := by
    have before := described.waiting bracket
    unfold opened closed at before ⊢
    rw [count_here _ _ _ _ inside, count_here _ _ _ _ inside]
    simpa [hidden] using before
  passed := by
    rw [described.passed, sight.passed_here place inside]
    simp [IsStaticColon, hidden]

theorem passed_bracket (colons : sight.PlainColons) (bracket : Bracket)
    (found : Bracket.opening? (sight.cellAt place).byte = some bracket ∨
      Bracket.closing? (sight.cellAt place).byte = some bracket) :
    progress.inStaticName = true ↔
      ∃ passed, place ≤ passed ∧ passed < sight.code.length ∧ sight.IsStaticColon passed := by
  rw [described.passed, sight.passed_here place inside]
  constructor
  · exact Or.inl
  · rintro (later | colon)
    · exact later
    · obtain ⟨noOpening, noClosing⟩ := colons place _ colon.2.1 (sight.byte_at place inside)
      rw [noOpening, noClosing] at found
      rcases found with opening | closing <;> contradiction

theorem describes_opening (colons : sight.PlainColons) (visible : sight.IsVisible place) (bracket : Bracket)
    (opening : Bracket.opening? (sight.cellAt place).byte = some bracket)
    (waits : progress.depth.count bracket ≠ 0) :
    sight.Describes { progress with depth := progress.depth.update bracket (· - 1) } place where
  waiting other := by
    rw [count_update]
    split
    · next same =>
      subst same
      have counted := waiting_opening sight progress place inside described visible other opening
      omega
    · next different =>
      refine waiting_other sight progress place inside described other ?_ ?_
      · rw [opening]
        exact fun same => different (Option.some.inj same).symm
      · rw [closing?_of_opening? _ bracket opening]
        exact (Option.some_ne_none _).symm
  passed := passed_bracket sight progress place inside described colons bracket (Or.inl opening)

theorem describes_closing (colons : sight.PlainColons) (visible : sight.IsVisible place) (bracket : Bracket)
    (closing : Bracket.closing? (sight.cellAt place).byte = some bracket) :
    sight.Describes { progress with depth := progress.depth.update bracket (· + 1) } place where
  waiting other := by
    rw [count_update]
    split
    · next same =>
      subst same
      exact waiting_closing sight progress place inside described visible other closing
    · next different =>
      exact waiting_other_closing sight progress place inside described bracket other different closing
  passed := passed_bracket sight progress place inside described colons bracket (Or.inr closing)

section Plain
variable (noOpening : Bracket.opening? (sight.cellAt place).byte = none)
  (noClosing : Bracket.closing? (sight.cellAt place).byte = none)

include noOpening noClosing

theorem waiting_plain (bracket : Bracket) :
    progress.depth.count bracket + sight.opened bracket place = sight.closed bracket place := by
  apply waiting_other sight progress place inside described bracket
  · rw [noOpening]
    exact (Option.some_ne_none _).symm
  · rw [noClosing]
    exact (Option.some_ne_none _).symm

theorem balanced_iff :
    (∀ bracket, sight.opened bracket place = sight.closed bracket place) ↔ progress.depth = Depth.zero := by
  rw [eq_zero_iff]
  apply forall_congr'
  intro bracket
  have counted := waiting_plain sight progress place inside described noOpening noClosing bracket
  omega

theorem describes_plain (visible : sight.IsVisible place) (inStaticName : Bool)
    (flag : inStaticName = true ↔ progress.inStaticName = true ∨
      progress.depth = Depth.zero ∧ sight.kind? place = some .doubleColon) :
    sight.Describes { progress with inStaticName } place where
  waiting := waiting_plain sight progress place inside described noOpening noClosing
  passed := by
    rw [flag, described.passed, sight.passed_here place inside]
    unfold IsStaticColon
    rw [balanced_iff sight progress place inside described noOpening noClosing]
    simp [visible, and_comm]

end Plain

theorem stops_of_visit (stopped : visit sight.boundary sight.inString progress (sight.cellAt place) = none) :
    sight.Stops place := by
  have byte := sight.byte_at place inside
  cases (sight.cellAt place).role sight.inString with
  | hidden hidden =>
    rw [visit_hidden _ _ _ _ hidden] at stopped
    contradiction
  | closing shown bracket closing =>
    have visible := (sight.isShown_cellAt place).mp shown
    rw [visit_closing _ _ _ _ bracket shown closing] at stopped
    split at stopped
    · next ends =>
      obtain ⟨rfl, outside, noVariable⟩ := ends
      have counted : progress.depth.round + sight.opened .round place = sight.closed .round place :=
        waiting_other_closing sight progress place inside described .curly .round (by decide) closing
      rw [(closing?_eq_curly _).mp closing] at byte
      refine .block visible byte ?_ noVariable
      omega
    · contradiction
  | opening shown bracket opening =>
    have visible := (sight.isShown_cellAt place).mp shown
    rw [visit_opening _ _ _ _ bracket shown opening] at stopped
    split at stopped
    · next empty =>
      have counted := waiting_opening sight progress place inside described visible bracket opening
      refine .opener bracket visible ?_ ?_
      · rw [byte]
        exact opening
      · omega
    · contradiction
  | plain shown noOpening noClosing =>
    have visible := (sight.isShown_cellAt place).mp shown
    rw [visit_plain _ _ _ _ shown noOpening noClosing] at stopped
    split at stopped
    · contradiction
    · next balanced =>
      split at stopped
      · next ends =>
        refine .delimiter _ visible byte ⟨noOpening, noClosing⟩ ?_ ((sight.isBoundary_cellAt place).mp ends)
        apply (balanced_iff sight progress place inside described noOpening noClosing).mpr
        exact Classical.not_not.mp balanced
      · contradiction

theorem describes_of_visit (colons : sight.PlainColons) (next : Progress)
    (visited : visit sight.boundary sight.inString progress (sight.cellAt place) = some next) :
    sight.Describes next place := by
  cases (sight.cellAt place).role sight.inString with
  | hidden hidden =>
    rw [visit_hidden _ _ _ _ hidden] at visited
    obtain rfl := Option.some.inj visited
    exact describes_hidden sight progress place inside described ((sight.isHidden_cellAt place).mp hidden)
  | closing shown bracket closing =>
    have visible := (sight.isShown_cellAt place).mp shown
    rw [visit_closing _ _ _ _ bracket shown closing] at visited
    split at visited
    · contradiction
    · obtain rfl := Option.some.inj visited
      exact describes_closing sight progress place inside described colons visible bracket closing
  | opening shown bracket opening =>
    have visible := (sight.isShown_cellAt place).mp shown
    rw [visit_opening _ _ _ _ bracket shown opening] at visited
    split at visited
    · contradiction
    · next waits =>
      obtain rfl := Option.some.inj visited
      exact describes_opening sight progress place inside described colons visible bracket opening waits
  | plain shown noOpening noClosing =>
    have visible := (sight.isShown_cellAt place).mp shown
    have plain := describes_plain sight progress place inside described noOpening noClosing visible
    rw [visit_plain _ _ _ _ shown noOpening noClosing] at visited
    split at visited
    · next nested =>
      obtain rfl := Option.some.inj visited
      exact plain progress.inStaticName (by simp [nested])
    · next balanced =>
      split at visited
      · contradiction
      · obtain rfl := Option.some.inj visited
        apply plain
        simp [Classical.not_not.mp balanced, cellAt]

theorem advance_of_stops (colons : sight.PlainColons) (stops : sight.Stops place) :
    advance sight.boundary sight.inString progress (sight.cellAt place) = none := by
  have byte := sight.byte_at place inside
  unfold advance
  rw [Option.filter_eq_none_iff]
  intro next visited
  cases stops with
  | block visible closing outside noVariable =>
    have curly : Bracket.closing? (sight.cellAt place).byte = some .curly := by
      rw [byte] at closing
      exact (closing?_eq_curly _).mpr (Option.some.inj closing)
    have counted : progress.depth.round + sight.opened .round place = sight.closed .round place :=
      waiting_other_closing sight progress place inside described .curly .round (by decide) curly
    have unopened : progress.depth.round = 0 := by omega
    rw [visit_closing _ _ _ _ _ ((sight.isShown_cellAt place).mpr visible) curly,
      if_pos ⟨rfl, unopened, noVariable⟩] at visited
    contradiction
  | opener bracket visible opening unclosed =>
    rw [byte] at opening
    have counted := waiting_opening sight progress place inside described visible bracket opening
    have unopened : progress.depth.count bracket = 0 := by omega
    rw [visit_unmatched _ _ _ _ bracket ((sight.isShown_cellAt place).mpr visible) opening unopened] at visited
    contradiction
  | delimiter found visible same noBracket balanced ends =>
    obtain rfl : (sight.cellAt place).byte = found := Option.some.inj (byte.symm.trans same)
    obtain ⟨opening, closing⟩ := noBracket
    have zero := (balanced_iff sight progress place inside described opening closing).mp balanced
    have boundary := (sight.isBoundary_cellAt place).mpr ends
    rw [visit_boundary _ _ _ _ ((sight.isShown_cellAt place).mpr visible) opening closing zero boundary] at visited
    contradiction
  | staticName passed behind bound colon noName =>
    have after := describes_of_visit sight progress place inside described colons next visited
    have flag : next.inStaticName = true := after.passed.mpr ⟨passed, Nat.le_of_lt behind, bound, colon⟩
    have foreign : (sight.cellAt place).kind.any staticNameKinds.contains = false := by
      change (sight.kind? place).any staticNameKinds.contains = false
      cases kind : sight.kind? place with
      | none => rfl
      | some other =>
        rw [kind] at noName
        simpa [staticNameKinds] using noName
    simp [flag, foreign]

theorem stops_of_advance (colons : sight.PlainColons)
    (stopped : advance sight.boundary sight.inString progress (sight.cellAt place) = none) :
    sight.Stops place := by
  unfold advance at stopped
  cases visited : visit sight.boundary sight.inString progress (sight.cellAt place) with
  | none => exact stops_of_visit sight progress place inside described visited
  | some next =>
    have after := describes_of_visit sight progress place inside described colons next visited
    rw [visited] at stopped
    have refused := Option.filter_eq_none_iff.mp stopped next rfl
    obtain ⟨flag, foreign⟩ : next.inStaticName = true ∧
        (sight.cellAt place).kind.any staticNameKinds.contains = false := by
      simpa using refused
    obtain ⟨passed, behind, bound, colon⟩ := after.passed.mp flag
    have noName : sight.kind? place ≠ some .doubleColon ∧ sight.kind? place ≠ some .identifier ∧
        sight.kind? place ≠ some .namespaceSeparator ∧ sight.kind? place ≠ some (.keyword .staticKw) := by
      change (sight.kind? place).any staticNameKinds.contains = false at foreign
      cases kind : sight.kind? place with
      | none => simp
      | some other =>
        rw [kind] at foreign
        simpa [staticNameKinds] using foreign
    refine .staticName passed ?_ bound colon noName
    apply Nat.lt_of_le_of_ne behind
    rintro rfl
    exact noName.1 colon.2.1

theorem describes_of_advance (colons : sight.PlainColons) (next : Progress)
    (advanced : advance sight.boundary sight.inString progress (sight.cellAt place) = some next) :
    sight.Describes next place :=
  describes_of_visit sight progress place inside described colons next (Option.filter_eq_some_iff.mp advanced).1

end Steps

/-- A scan that has come to a place goes on to the last stop before it. -/
theorem startsAt_scan (sight : Sight) (colons : sight.PlainColons) (place : Nat)
    (bound : place ≤ sight.code.length) (progress : Progress) (described : sight.Describes progress place)
    (free : ∀ other, place ≤ other → other < sight.code.length → ¬ sight.Stops other) :
    sight.StartsAt (scan sight.boundary sight.inString progress ((List.range place).reverse.map sight.cellAt)) := by
  induction place generalizing progress with
  | zero => exact ⟨fun other _ inside => free other (Nat.zero_le other) inside, Or.inl rfl⟩
  | succ place ih =>
    rw [List.range_succ, List.reverse_append, List.map_append]
    change sight.StartsAt (scan _ _ progress (sight.cellAt place :: (List.range place).reverse.map sight.cellAt))
    rw [scan]
    cases advanced : advance sight.boundary sight.inString progress (sight.cellAt place) with
    | none =>
      have stops := stops_of_advance sight progress place bound described colons advanced
      refine ⟨?_, Or.inr ⟨place, ?_, bound, stops⟩⟩
      · simpa using free
      · simp
    | some next =>
      apply ih (Nat.le_of_succ_le bound) next
      · exact describes_of_advance sight progress place bound described colons next advanced
      · intro other behind inside stops
        rcases Nat.eq_or_lt_of_le behind with rfl | later
        · rw [advance_of_stops sight progress place bound described colons stops] at advanced
          contradiction
        · exact free other later inside stops

theorem cell_of_laidOut (before : Option TokenKind) (offset : Nat) (pieces : List (TokenKind × Text))
    (place owner : Nat) (inside : place < Text.byteLength (pieces.flatMap Prod.snd))
    (owned : (Token.laidOut offset pieces).findIdx (fun token => token.covers (offset + place : Nat)) = owner) :
    (cells before pieces).reverse[place]? =
      some ⟨((Text.encode (pieces.flatMap Prod.snd))[place]?).getD 0,
        ((Token.laidOut offset pieces)[owner]?).map Token.kind,
        kindBefore before (Token.laidOut offset pieces) owner⟩ := by
  -- A place is one of the first piece, or else a place of the rest, counted from where the rest begins.
  induction pieces generalizing before offset place owner with
  | nil => simp at inside
  | cons piece rest ih =>
    have parted : (cells before (piece :: rest)).reverse =
        (Text.encode piece.2).map (fun byte => ⟨byte, some piece.1, before⟩) ++ (cells (some piece.1) rest).reverse := by
      simp [pieceCells]
    have bytes : Text.encode ((piece :: rest).flatMap Prod.snd) =
        Text.encode piece.2 ++ Text.encode (rest.flatMap Prod.snd) := by simp
    rw [parted, bytes]
    rw [Token.laidOut, List.findIdx_cons] at owned
    by_cases inHead : place < (Text.encode piece.2).length
    · have covered : Token.covers ⟨piece.1, piece.2, offset⟩ (offset + place : Nat) = true :=
        (Token.covers_iff _ _).mpr (by simp [Token.byteLength, Text.byteLength, inHead])
      rw [covered] at owned
      obtain rfl : 0 = owner := owned
      rw [List.getElem?_append_left (by simpa using inHead), List.getElem?_append_left inHead]
      simp [List.getElem?_eq_getElem inHead, Token.laidOut, kindBefore]
    · have apart : Token.covers ⟨piece.1, piece.2, offset⟩ (offset + place : Nat) = false := by
        rw [← Bool.not_eq_true, Token.covers_iff]
        simp [Token.byteLength, Text.byteLength]
        omega
      have behind : offset + place = offset + Text.byteLength piece.2 + (place - Text.byteLength piece.2) := by
        unfold Text.byteLength
        omega
      rw [apart, behind] at owned
      obtain ⟨index, found, rfl⟩ : ∃ index, (Token.laidOut (offset + Text.byteLength piece.2) rest).findIdx
          (fun token => token.covers (offset + Text.byteLength piece.2 + (place - Text.byteLength piece.2) : Nat)) = index ∧
            owner = index + 1 := ⟨_, rfl, owned.symm⟩
      have later : place - Text.byteLength piece.2 < Text.byteLength (rest.flatMap Prod.snd) := by
        rw [List.flatMap_cons, Text.byteLength_append] at inside
        unfold Text.byteLength at inside ⊢
        omega
      have tail := ih (some piece.1) (offset + Text.byteLength piece.2) (place - Text.byteLength piece.2) index
        later found
      rw [List.getElem?_append_right (by simpa using inHead), List.getElem?_append_right (Nat.le_of_not_lt inHead),
        List.length_map]
      change _ = some _ at tail
      unfold Text.byteLength at tail
      rw [tail]
      cases index with
      | zero => rfl
      | succ index => rfl

/-- What the default lexer lets a scan see of some bytes. -/
def ofCode (boundary : KindSet) (code : List UInt8) : Sight := ⟨code, tokenize (Text.decode code), boundary⟩

theorem cells_eq_cellAt (boundary : KindSet) (code : List UInt8) :
    cells none (pieces Context.start (Text.decode code)) =
      (List.range code.length).reverse.map (ofCode boundary code).cellAt := by
  have bytes : Text.encode ((pieces Context.start (Text.decode code)).flatMap Prod.snd) = code := by
    rw [flatMap_pieces, Text.encode_decode]
  have tokens : (ofCode boundary code).tokens = Token.laidOut 0 (pieces Context.start (Text.decode code)) :=
    tokensFrom_eq_laidOut Context.start 0 (Text.decode code)
  apply List.reverse_inj.mp
  rw [← List.map_reverse, List.reverse_reverse]
  apply List.ext_getElem?
  intro place
  by_cases inside : place < code.length
  · have found := cell_of_laidOut none 0 (pieces Context.start (Text.decode code)) place _
      (by rw [Text.byteLength, bytes]; exact inside) rfl
    rw [found, bytes, List.getElem?_map, List.getElem?_range inside]
    simp only [Nat.zero_add, Option.map_some, cellAt, kind?, previous?, owner, tokens]
    rfl
  · have outside : code.length ≤ place := Nat.le_of_not_lt inside
    rw [List.getElem?_eq_none, List.getElem?_eq_none]
    · simpa using outside
    · rw [List.length_reverse, length_cells, Text.byteLength, bytes]
      exact outside

theorem plainColons_ofCode (boundary : KindSet) (code : List UInt8) : (ofCode boundary code).PlainColons := by
  intro place byte colon found
  have inside : place < code.length := (List.getElem?_eq_some_iff.mp found).1
  have visited : (ofCode boundary code).cellAt place ∈ cells none (pieces Context.start (Text.decode code)) := by
    rw [cells_eq_cellAt boundary code]
    exact List.mem_map_of_mem (List.mem_reverse.mpr (List.mem_range.mpr inside))
  obtain ⟨piece, member, kind, owned⟩ := piece_of_mem_cells none _ _ visited
  have same : piece.1 = .doubleColon := Option.some.inj (kind.symm.trans colon)
  have text := text_of_doubleColon Context.start (Text.decode code) piece member same
  have read : byte = ((ofCode boundary code).cellAt place).byte :=
    Option.some.inj (found.symm.trans ((ofCode boundary code).byte_at place inside))
  rw [text] at owned
  obtain rfl : byte = 0x3A := by
    rw [read]
    have colons : ∀ other ∈ Text.encode (Text.ofChars [':', ':']), other = 0x3A := List.all_iff_forall_prop.mp (by decide)
    exact colons _ owned
  exact ⟨rfl, rfl⟩

theorem startsAt_unique (sight : Sight) (first second : Nat) (one : sight.StartsAt first)
    (other : sight.StartsAt second) : first ≤ second := by
  obtain ⟨free, _⟩ := other
  rcases one.2 with rfl | ⟨place, rfl, inside, stops⟩
  · exact Nat.zero_le second
  · by_cases behind : second ≤ place
    · exact absurd stops (free place behind inside)
    · exact Nat.lt_of_not_le behind

end Sight

open Sight in
/-- The expression that ends at a cursor starts behind the last place before the cursor that stops it, and
at the front of the source if no place does. -/
theorem expressionStart_behind_last_stop (boundary : KindSet) (source : Text) (cursor : Option Int) (stop : Nat)
    (placed : cursor.getD (Text.byteLength source) = stop) (inside : stop ≤ Text.byteLength source) :
    ∃ start, Scanner.expressionStart { boundary } source cursor = .ok start ∧
      ∀ other, (ofCode boundary ((Text.encode source).take stop)).StartsAt other ↔ other = start := by
  let sight := ofCode boundary ((Text.encode source).take stop)
  have found : sight.StartsAt (Scanner.startBefore { boundary } ((Text.encode source).take stop)) := by
    have colons := plainColons_ofCode boundary ((Text.encode source).take stop)
    rw [startBefore_eq_scan, cells_eq_cellAt boundary, endsInString_pieces]
    apply startsAt_scan sight colons _ (Nat.le_refl _) _ sight.describes_start
    intro place behind before
    exact absurd before (Nat.not_lt_of_le behind)
  refine ⟨_, expressionStart_eq _ source cursor stop placed inside, ?_⟩
  intro other
  constructor
  · intro starts
    exact Nat.le_antisymm (startsAt_unique sight _ _ starts found) (startsAt_unique sight _ _ found starts)
  · rintro rfl
    exact found

/-- A cursor inside a character, behind a static class name. -/
theorem expressionStart_within_character :
    (some (8 : Int)).getD (Text.byteLength (Text.ofString "$x; A::€")) = (8 : Nat) ∧
      8 ≤ Text.byteLength (Text.ofString "$x; A::€") ∧
      ∃ start, Scanner.expressionStart { boundary := KindSet.boundary } (Text.ofString "$x; A::€") (some 8) = .ok start ∧
        ∀ other, (Sight.ofCode KindSet.boundary ((Text.encode (Text.ofString "$x; A::€")).take 8)).StartsAt other ↔
          other = start :=
  ⟨by decide, by decide +kernel,
    expressionStart_behind_last_stop KindSet.boundary (Text.ofString "$x; A::€") (some 8) 8 (by decide)
      (by decide +kernel)⟩

end AccessChain
