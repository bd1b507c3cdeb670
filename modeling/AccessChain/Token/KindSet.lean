import AccessChain.Text.Classes
import AccessChain.Text.Upper
import AccessChain.Token.Kind

/-! Token kinds by the names that users write, in any case and with white space around, sets of kinds, and the
kinds that end an expression unless options say otherwise. -/
namespace AccessChain

namespace TokenKind

def normalName (name : String) : String :=
  let trimmed := (name.toList.dropWhile Text.isBlank).reverse.dropWhile Text.isBlank
  Text.upper (String.ofList trimmed.reverse)

def parse? (name : String) : Option TokenKind := ofName? (normalName name)

end TokenKind

abbrev KindSet := List TokenKind

namespace KindSet

def isBoundary : TokenKind → Bool
  | .openTag | .openTagWithEcho | .closeTag | .heredoc => true
  | .keyword word => !word.inExpression
  | .operator sign => sign != .coalesce
  | _ => false

/-- The kinds that never occur in the expression that ends at a cursor. -/
def boundary : KindSet := TokenKind.all.filter isBoundary

def adding (kinds : KindSet) (more : List TokenKind) : KindSet := kinds ++ more

def dropping (kinds : KindSet) (fewer : List TokenKind) : KindSet :=
  kinds.filter fun kind => !fewer.contains kind

theorem mem_adding (kind : TokenKind) (kinds : KindSet) (more : List TokenKind) :
    kind ∈ kinds.adding more ↔ kind ∈ kinds ∨ kind ∈ more := by
  simp [adding]

theorem mem_dropping (kind : TokenKind) (kinds : KindSet) (fewer : List TokenKind) :
    kind ∈ kinds.dropping fewer ↔ kind ∈ kinds ∧ kind ∉ fewer := by
  simp [dropping]

end KindSet
end AccessChain
