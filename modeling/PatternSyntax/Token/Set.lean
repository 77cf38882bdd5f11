import PatternSyntax.Token.Kind

/-!
Choices of token kinds.
-/

namespace PatternSyntax

/-- A choice of token kinds, such as the modifiers that are allowed at a place, in the order in
which they were listed. -/
structure TokenSet where
  toList : List TokenKind
deriving DecidableEq, Repr, Inhabited

namespace TokenSet

/-- No kind. -/
def empty : TokenSet :=
  ⟨[]⟩

/-- Whether a kind was chosen. -/
def contains (kinds : TokenSet) (kind : TokenKind) : Bool :=
  kinds.toList.contains kind

theorem contains_iff_mem (kinds : TokenSet) (kind : TokenKind) :
    kinds.contains kind = true ↔ kind ∈ kinds.toList := by
  simp [contains]

theorem not_contains_empty (kind : TokenKind) : empty.contains kind = false :=
  rfl

/-- The modifiers that a variable may have. -/
def variableModifiers : TokenSet :=
  ⟨[.finalKw]⟩

end TokenSet

end PatternSyntax
