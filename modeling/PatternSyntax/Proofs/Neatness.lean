import PatternSyntax.Proofs.Coverage

/-!
Outlines without defects, and what a run of a rule puts down if it puts down no error. Brackets are
counted along the run: those that a run puts down directly, outside of all nodes.
-/

namespace PatternSyntax.Proofs.Neatness

open Grammar
open PatternSyntax.Proofs.Coverage
open PatternSyntax.Proofs.Runs

/-- Tokens that do not stand for text that could not be read. -/
def Plain (kind : TokenKind) : Prop :=
  kind ≠ .unknown ∧ kind ≠ .unterminatedLiteral ∧ kind ≠ .unterminatedBlockComment

instance : DecidablePred Plain :=
  fun kind => inferInstanceAs (Decidable (kind ≠ .unknown ∧ kind ≠ .unterminatedLiteral ∧
    kind ≠ .unterminatedBlockComment))

def isBracket : TokenKind → Bool
  | .openParen | .closeParen | .openBracket | .closeBracket | .openBrace | .closeBrace => true
  | _ => false

/-- Tokens that need no care: they are no brackets. -/
def Ordinary (kind : TokenKind) : Prop :=
  Plain kind ∧ isBracket kind = false

instance : DecidablePred Ordinary :=
  fun kind => inferInstanceAs (Decidable (Plain kind ∧ isBracket kind = false))

/-- Brackets that come in pairs, each pair closed before the next one is opened. -/
def paired : List TokenKind → Bool
  | [] => true
  | .openParen :: .closeParen :: rest => paired rest
  | .openBracket :: .closeBracket :: rest => paired rest
  | .openBrace :: .closeBrace :: rest => paired rest
  | _ => false

/-- Inside of a brace and of `depth` more of them, the first one is closed by the last token. -/
def closes : Nat → List TokenKind → Bool
  | _, [] => false
  | 0, .closeBrace :: rest => rest.isEmpty
  | depth + 1, .closeBrace :: rest => closes depth rest
  | depth, .openBrace :: rest => closes (depth + 1) rest
  | depth, _ :: rest => closes depth rest

mutual

/-- The tokens of an outline that are not inside of its nodes. -/
def direct : Outline → List TokenKind
  | .token kind => [kind]
  | .loose parts => directAll parts
  | _ => []

def directAll : List Outline → List TokenKind
  | [] => []
  | part :: rest => direct part ++ directAll rest

end

def brackets (parts : List Outline) : List TokenKind :=
  (directAll parts).filter isBracket

/-- The parts of a block: its tokens, from its brace to the one that closes it. -/
def IsBlock (parts : List Outline) : Prop :=
  ∃ kinds, parts = (TokenKind.openBrace :: kinds).map Outline.token ∧ closes 0 kinds = true

/-- The parts of any other node: brackets come in pairs, and type arguments stand between angles. -/
def Fitting (kind : NodeKind) (parts : List Outline) : Prop :=
  kind ≠ .error ∧ paired (brackets parts) = true ∧
    (kind = .referenceParameterList →
      ∃ inner, parts = .token .lt :: (inner ++ [.token .gt]))

mutual

/-- Outlines without errors whose brackets are closed. -/
def NeatOne : Outline → Prop
  | .token kind => Plain kind
  | .error _ _ => False
  | .node kind parts => if kind = .codeBlock then IsBlock parts else Fitting kind parts ∧ Neat parts
  | .around kind first later =>
    (kind ≠ .codeBlock ∧ Fitting kind (first :: later)) ∧ NeatOne first ∧ Neat later
  | .loose parts => Neat parts

def Neat : List Outline → Prop
  | [] => True
  | part :: rest => NeatOne part ∧ Neat rest

end

theorem hasErrorAll_append (front back : List Outline) :
    Outline.hasErrorAll (front ++ back) =
      (Outline.hasErrorAll front || Outline.hasErrorAll back) := by
  induction front with
  | nil => rfl
  | cons part front ih =>
      rw [List.cons_append, Outline.hasErrorAll, Outline.hasErrorAll, ih, Bool.or_assoc]

theorem Neat.append {front back : List Outline} (hfront : Neat front) (hback : Neat back) :
    Neat (front ++ back) := by
  induction front with
  | nil => exact hback
  | cons part front ih => exact ⟨hfront.1, ih hfront.2⟩

theorem directAll_append (front back : List Outline) :
    directAll (front ++ back) = directAll front ++ directAll back := by
  induction front with
  | nil => rfl
  | cons part front ih => rw [List.cons_append, directAll, directAll, ih, List.append_assoc]

theorem brackets_append (front back : List Outline) :
    brackets (front ++ back) = brackets front ++ brackets back := by
  rw [brackets, directAll_append, List.filter_append]
  rfl

/-- The brackets of a single token. -/
def bracketOf (kind : TokenKind) : List TokenKind :=
  if isBracket kind then [kind] else []

theorem brackets_token (kind : TokenKind) (parts : List Outline) :
    brackets (.token kind :: parts) = bracketOf kind ++ brackets parts := by
  rw [← List.singleton_append, brackets_append]
  simp [brackets, directAll, direct, bracketOf, List.filter_cons]

theorem brackets_singleton (kind : TokenKind) : brackets [.token kind] = bracketOf kind := by
  rw [brackets_token, brackets, directAll, List.filter_nil, List.append_nil]

theorem bracketOf_ordinary {kind : TokenKind} (h : Ordinary kind) : bracketOf kind = [] := by
  rw [bracketOf, h.2]
  rfl

theorem brackets_loose (inner parts : List Outline) :
    brackets (.loose inner :: parts) = brackets inner ++ brackets parts := by
  rw [brackets, directAll, direct, List.filter_append]
  rfl

theorem paired_append {front back : List TokenKind} (hfront : paired front = true)
    (hback : paired back = true) : paired (front ++ back) = true := by
  fun_induction paired front with
  | case1 => exact hback
  | case2 rest ih => exact ih hfront
  | case3 rest ih => exact ih hfront
  | case4 rest ih => exact ih hfront
  | case5 => cases hfront

/-- A node that is neat unless there is an error in it. -/
def Tidy (outline : Outline) : Prop :=
  IsNode outline ∧ (outline.hasError = false → NeatOne outline)

/-- A single node, maybe one that was begun inside of a node that was given up, which is neat unless
there is an error in it. -/
def Laid (outline : Outline) : Prop :=
  (IsNode outline ∨ ∃ inner, outline = .loose [inner] ∧ IsNode inner) ∧
    (outline.hasError = false → NeatOne outline)

theorem Tidy.laid {outline : Outline} (h : Tidy outline) : Laid outline :=
  ⟨.inl h.1, h.2⟩

theorem direct_of_isNode {outline : Outline} (h : IsNode outline) : direct outline = [] := by
  cases outline with
  | token kind => cases h
  | error kind index => cases h
  | node kind parts => rfl
  | around kind first later => rfl
  | loose parts => cases h

theorem Laid.brackets_eq {outline : Outline} (h : Laid outline) : brackets [outline] = [] := by
  rcases h.1 with hnode | ⟨inner, rfl, hnode⟩
  · simp [brackets, directAll, direct_of_isNode hnode]
  · simp [brackets, directAll, direct, direct_of_isNode hnode]

theorem tidy_node {kind : NodeKind} {parts : List Outline}
    (hkind : kind ≠ .error ∧ kind ≠ .codeBlock)
    (hlist : kind = .referenceParameterList → Outline.hasErrorAll parts = false →
      ∃ inner, parts = .token .lt :: (inner ++ [.token .gt]))
    (h : Outline.hasErrorAll parts = false → Neat parts ∧ paired (brackets parts) = true) :
    Tidy (.node kind parts) := by
  refine ⟨trivial, fun hclean => ?_⟩
  obtain ⟨hneat, hpaired⟩ := h hclean
  rw [NeatOne, if_neg hkind.2]
  exact ⟨⟨hkind.1, hpaired, fun hlist' => hlist hlist' hclean⟩, hneat⟩

theorem tidy_around {kind : NodeKind} {first : Outline} {later : List Outline}
    (hkind : kind ≠ .error ∧ kind ≠ .codeBlock ∧ kind ≠ .referenceParameterList)
    (hfirst : Tidy first)
    (h : Outline.hasErrorAll later = false → Neat later ∧ paired (brackets later) = true) :
    Tidy (.around kind first later) := by
  refine ⟨trivial, fun hclean => ?_⟩
  rw [Outline.hasError, Bool.or_eq_false_iff] at hclean
  obtain ⟨hneat, hpaired⟩ := h hclean.2
  have hbrackets : brackets (first :: later) = brackets later := by
    rw [← List.singleton_append, brackets_append, hfirst.laid.brackets_eq, List.nil_append]
  refine ⟨⟨hkind.2.1, hkind.1, ?_, fun hlist => absurd hlist hkind.2.2⟩, hfirst.2 hclean.1, hneat⟩
  rwa [hbrackets]

end PatternSyntax.Proofs.Neatness
