/-
  Trivariate.Proofs.Parse.Offender
  ────────────────────────────────
  **WHAT IS WRONG WITH A TREE THAT CANNOT BE READ BACK.**

  Any tree has a text, but some texts cannot be read: those of trees with a
  constant that is NaN, with an operation that does not take as many operands
  as it has, or, in flat text, with an operation that takes any number of
  them.  When several subtrees are to blame, reading fails with the first of
  them, operands before their node and from left to right, and at its offset.

  Reading along the text of a tree has an outcome that the subtrees and their
  offsets determine: the error of the first that is to blame, or, when none is,
  that reading goes on behind the text with the tree.

  Main results:

      takes_blankBehind,
      takes_blankBefore             the operands of a node
      Grouped.takes, Flat.takes     a tree, in any state before it
      parse_render_outcome          the text of a tree
      parse_flat_render_variadic    what flat text cannot show is blamed
      parse_render_firstOffender    a tree that is not read back is blamed at
                                    its first offender
-/
import Trivariate.Proofs.Expr.Placed
import Trivariate.Proofs.Parse.Along
import Trivariate.Proofs.Parse.Closure
import Trivariate.Proofs.Parse.Cursor.Safety

namespace Trivariate.Parse

open Trivariate.Text

/-! ## §1. What is to blame. -/

/-- The error that the root of a subtree is to blame for.  A wrong count is
found at the parenthesis of the group, an operation of flat text at its
token. -/
def offence : Notation → Placed → Option ParseError
  | _, ⟨.const value, start⟩ =>
      if value.isNaN then some (.invalidElement "NaN" start) else none
  | _, ⟨.var _, _⟩ => none
  | .flat, ⟨.node op operands, start⟩ =>
      if op.arity = .variadic then
        some (.variadicInFlat op (start + spread .flat operands))
      else none
  | .operationFirst, ⟨.node op operands, start⟩
  | .operationLast, ⟨.node op operands, start⟩ =>
      if op.arity.accepts operands.length then none
      else some (.arityMismatch ⟨op, operands.length⟩ start)

section offence

variable {n : Notation} (start : Nat)

theorem offence_const (value : Float) :
    offence n ⟨.const value, start⟩
      = if value.isNaN then some (.invalidElement "NaN" start) else none := by
  cases n <;> rfl

theorem offence_var (v : Var) : offence n ⟨.var v, start⟩ = none := by
  cases n <;> rfl

theorem offence_flat (op : Op) (operands : List Expr) :
    offence .flat ⟨.node op operands, start⟩
      = if op.arity = .variadic then
          some (.variadicInFlat op (start + spread .flat operands))
        else none := rfl

theorem offence_grouped (hn : n ≠ .flat) (op : Op) (operands : List Expr) :
    offence n ⟨.node op operands, start⟩
      = if op.arity.accepts operands.length then none
        else some (.arityMismatch ⟨op, operands.length⟩ start) := by
  cases n with
  | flat => exact absurd rfl hn
  | operationFirst => rfl
  | operationLast => rfl

end offence

/-- The error of the first of the subtrees that is to blame; `r` when none
is. -/
def outcome (n : Notation) (ps : List Placed) (r : Except ParseError Expr) :
    Except ParseError Expr :=
  match ps.findSome? (offence n) with
  | some fault => .error fault
  | none => r

section outcome

variable {n : Notation} {ps qs : List Placed} {r : Except ParseError Expr}

theorem outcome_append : outcome n (ps ++ qs) r = outcome n ps (outcome n qs r) := by
  unfold outcome
  rw [List.findSome?_append]
  cases ps.findSome? (offence n) with
  | some fault => rfl
  | none => rfl

theorem outcome_singleton {p : Placed} :
    outcome n [p] r
      = match offence n p with
        | some fault => .error fault
        | none => r := by
  unfold outcome
  rw [List.findSome?_singleton]

end outcome

theorem no_meaning_nan :
    leaf? "NaN" = none ∧ Op.ofToken? "NaN" = none ∧ namedConstant? "NaN" = none := by
  decide +kernel

/-! ## §2. Trees along a text. -/

section takes

variable {σ : Type} {R : Reader σ} {n : Notation}

/-- From the one state to the other the reader takes the text of the tree, in
front of anything that does not extend its last word, unless a subtree is to
blame. -/
def Takes (R : Reader σ) (n : Notation) (e : Expr) (s s' : σ) : Prop :=
  ∀ start rest, EndsWord n.isMark rest →
    R.along start ((e.render n).toList ++ rest) s
      = outcome n (placed n start e)
          (R.along (start + (e.render n).utf8ByteSize) rest s')

/-- A word is taken as a whole. -/
theorem along_isWord (hmark : R.isMark = n.isMark) {w : String} (hw : IsWord w)
    {rest : List Char} (hrest : EndsWord n.isMark rest) (start : Nat) (s : σ) :
    R.along start (w.toList ++ rest) s
      = R.step s ⟨w, start⟩ >>= R.along (start + w.utf8ByteSize) rest := by
  have hinner : ∀ c ∈ w.toList, isInner R.isMark c = true := by
    rw [hmark]
    exact fun c hc => isInner_isMark n (List.all_eq_true.1 hw.2 c hc)
  have hword : R.along start (w.toList ++ rest) s = _ :=
    R.along_word hw.1 hinner (hmark ▸ hrest) s
  rwa [String.ofList_toList, byteLength_toList] at hword

section each

variable {τ : Type} {state : τ → σ} {push : τ → Expr → τ} {es : List Expr}

/-- Trees with a blank behind each of them are taken one after the other. -/
theorem takes_blankBehind
    (heach : ∀ e ∈ es, ∀ t, Takes R n e (state t) (state (push t e))) :
    ∀ start rest t,
      R.along start (es.flatMap (fun e => (e.render n).toList ++ [' ']) ++ rest) (state t)
        = outcome n (placedEach n start es)
            (R.along (start + spread n es) rest (state (es.foldl push t))) := by
  induction es with
  | nil =>
    intro start rest t
    rfl
  | cons e es ih =>
    intro start rest t
    obtain ⟨he, hes⟩ := List.forall_mem_cons.1 heach
    have hend : start + (e.render n).utf8ByteSize + 1 + spread n es
        = start + spread n (e :: es) := by
      rw [spread_cons]
      omega
    rw [List.flatMap_cons, List.append_assoc, List.append_assoc, List.singleton_append,
      he t start _ (endsWord_blank isBlank_space), R.along_space, ih hes, placedEach,
      outcome_append, hend]
    rfl

/-- So are trees with a blank before each of them. -/
theorem takes_blankBefore
    (heach : ∀ e ∈ es, ∀ t, Takes R n e (state t) (state (push t e))) :
    ∀ start rest t, EndsWord n.isMark rest →
      R.along start (es.flatMap (fun e => ' ' :: (e.render n).toList) ++ rest) (state t)
        = outcome n (placedEach n (start + 1) es)
            (R.along (start + spread n es) rest (state (es.foldl push t))) := by
  induction es with
  | nil =>
    intro start rest t _
    rfl
  | cons e es ih =>
    intro start rest t hrest
    obtain ⟨he, hes⟩ := List.forall_mem_cons.1 heach
    have hend : start + 1 + (e.render n).utf8ByteSize + spread n es
        = start + spread n (e :: es) := by
      rw [spread_cons]
      omega
    -- what follows a tree is the blank of the next one, or the rest
    have hbehind : EndsWord n.isMark
        (es.flatMap (fun e => ' ' :: (e.render n).toList) ++ rest) := by
      cases es with
      | nil => exact hrest
      | cons d ds => exact endsWord_blank isBlank_space
    rw [List.flatMap_cons, List.append_assoc, List.cons_append, R.along_space,
      he t _ _ hbehind, ih hes _ _ _ hrest, placedEach, outcome_append, hend,
      List.foldl_cons]

end each

/-- A leaf is taken when its word leads from the one state to the other, unless
it is to blame. -/
theorem takes_leaf (hmark : R.isMark = n.isMark) {e : Expr} {s s' : σ}
    (hword : IsWord (e.render n)) (hplaced : ∀ start, placed n start e = [⟨e, start⟩])
    (hstep : ∀ start, R.step s ⟨e.render n, start⟩
      = match offence n ⟨e, start⟩ with
        | some fault => .error fault
        | none => .ok s') : Takes R n e s s' := by
  intro start rest hrest
  rw [along_isWord hmark hword hrest, hstep, hplaced, outcome_singleton]
  cases offence n ⟨e, start⟩ with
  | some fault => rfl
  | none => rfl

/-- A variable is never to blame. -/
theorem takes_var (hmark : R.isMark = n.isMark) {v : Var} {s s' : σ}
    (hleaf : ∀ t : Token, leaf? t.text = some (.var v) → R.step s t = .ok s') :
    Takes R n (.var v) s s' := by
  have hplaced : ∀ start, placed n start (.var v) = [⟨.var v, start⟩] := fun _ => rfl
  refine takes_leaf hmark (isWord_name v) hplaced fun start => ?_
  rw [offence_var]
  exact hleaf _ (leaf?_name v)

/-- A constant is to blame when it is NaN, for that is no leaf. -/
theorem takes_const (hmark : R.isMark = n.isMark) {value : Float} {s s' : σ}
    (hleaf : ∀ t : Token, leaf? t.text = some (.const value) → R.step s t = .ok s')
    (hnan : ∀ start, R.step s ⟨"NaN", start⟩ = .error (.invalidElement "NaN" start)) :
    Takes R n (.const value) s s' := by
  have hplaced : ∀ start, placed n start (.const value) = [⟨.const value, start⟩] :=
    fun _ => rfl
  refine takes_leaf hmark (isWord_constantText value) hplaced fun start => ?_
  rw [offence_const, Expr.render_const]
  by_cases hvalue : value.isNaN = true
  · rw [if_pos hvalue, Numeric.constantText_of_nan hvalue]
    exact hnan start
  · rw [if_neg hvalue]
    have hreads := Numeric.literal?_constantText (Bool.eq_false_iff.2 hvalue)
    exact hleaf _ (leaf?_literal hreads)

end takes

/-! ## §3. Flat text. -/

namespace Flat

variable {length : Nat}

theorem size_flat (op : Op) (operands : List Expr) :
    ((Expr.node op operands).render .flat).utf8ByteSize
      = spread .flat operands + op.token.utf8ByteSize := by
  rw [← byteLength_toList, toList_flat, byteLength_append, byteLength_blankBehind,
    byteLength_toList]

/-- The operation of a node whose operands are on the stack is to blame when it
takes any number of them; otherwise they are replaced by the node. -/
theorem step_node {op : Op} {operands : List Expr}
    (count : op.arity.accepts operands.length = true) (stack : Stack) (start : Nat) :
    step (operands.reverse ++ stack) ⟨op.token, start + spread .flat operands⟩
      = match offence .flat ⟨.node op operands, start⟩ with
        | some fault => .error fault
        | none => .ok (.node op operands :: stack) := by
  rw [step_operation rfl, offence_flat]
  cases hop : op.arity with
  | variadic =>
    unfold pushOp
    rw [hop]
    rfl
  | fixed needed =>
    rw [hop] at count
    rw [← Arity.eq_of_accepts count] at hop
    exact pushOp_ok hop stack _

/-- A tree is taken onto the stack. -/
theorem takes {e : Expr} (hcount : e.WellFormed) :
    ∀ stack, Takes (reader length) .flat e stack (e :: stack) := by
  induction e with
  | const value =>
    intro stack
    refine takes_const rfl (fun t ht => step_leaf ht stack) fun start => ?_
    show step stack _ = _
    unfold step
    rw [no_meaning_nan.1, no_meaning_nan.2.1, no_meaning_nan.2.2]
  | var v =>
    intro stack
    exact takes_var rfl fun t ht => step_leaf ht stack
  | node op operands ih =>
    intro stack start rest hrest
    obtain ⟨count, hcounts⟩ := Expr.wellFormed_node.1 hcount
    have hplaced : placed .flat start (.node op operands)
        = placedEach .flat start operands ++ [⟨.node op operands, start⟩] := rfl
    have hoperands : ∀ cs, (reader length).along start
        (operands.flatMap (fun e => (e.render .flat).toList ++ [' ']) ++ cs) stack
          = outcome .flat (placedEach .flat start operands)
              ((reader length).along (start + spread .flat operands) cs
                (operands.foldl (fun stack e => e :: stack) stack)) :=
      fun cs => takes_blankBehind (fun e he t => ih e he (hcounts e he) t) start cs stack
    have hstep : (reader length).step (operands.reverse ++ stack) _ = _ :=
      step_node count stack start
    -- first the operands, then the token of the operation
    rw [toList_flat, List.append_assoc, hoperands, List.foldl_flip_cons_eq_append',
      along_isWord rfl (isWord_token op) hrest, hstep, hplaced, outcome_append,
      outcome_singleton, size_flat, Nat.add_assoc]
    cases offence .flat ⟨.node op operands, start⟩ with
    | some fault => rfl
    | none => rfl

end Flat

/-! ## §4. Grouped text. -/

namespace Grouped

variable {length : Nat} {n : Notation}

/-- What has been read before a tree that stands inside these groups. -/
def Progress.before : List Group → Progress
  | [] => .start
  | g :: outer => .inside g outer

theorem step_before_open (groups : List Group) (start : Nat) :
    step (.before groups) ⟨"(", start⟩ = .ok (.inside (.opened start) groups) := by
  cases groups with
  | nil => rfl
  | cons g outer => exact step_open rfl g outer

theorem step_before_leaf {t : Token} {e : Expr} (h : leaf? t.text = some e)
    (groups : List Group) : step (.before groups) t = .ok (.after e groups) := by
  cases groups with
  | nil =>
    obtain ⟨hopen, hclose⟩ := leaf_ne_parenthesis h
    show step .start t = _
    rw [step_start, if_neg hopen, if_neg hclose, h]
    rfl
  | cons g outer => exact step_leaf h g outer

theorem step_before_nan (groups : List Group) (start : Nat) :
    step (.before groups) ⟨"NaN", start⟩ = .error (.invalidElement "NaN" start) := by
  have hopen : "NaN" ≠ "(" := by decide
  have hclose : "NaN" ≠ ")" := by decide
  cases groups with
  | nil =>
    show step .start _ = _
    rw [step_start, if_neg hopen, if_neg hclose, no_meaning_nan.1]
  | cons g outer =>
    show step (.inside g outer) _ = _
    rw [step_inside, if_neg hopen, if_neg hclose]
    unfold Group.read
    rw [no_meaning_nan.1, no_meaning_nan.2.1]
    rfl

/-- A group whose operation and operands have been read is to blame when their
number is wrong; otherwise it is closed into its node. -/
theorem step_node (hn : n ≠ .flat) (op : Op) (operands : List Expr)
    (groups : List Group) (start stop : Nat) :
    step (.inside ⟨start, some op, operands.reverse⟩ groups) ⟨")", stop⟩
      = match offence n ⟨.node op operands, start⟩ with
        | some fault => .error fault
        | none => .ok (.after (.node op operands) groups) := by
  rw [offence_grouped start hn]
  by_cases count : op.arity.accepts operands.length = true
  · rw [if_pos count]
    exact step_close rfl count start groups
  · have hclose : (Group.mk start (some op) operands.reverse).close
        = .error (.arityMismatch ⟨op, operands.length⟩ start) := by
      rw [close_some rfl, List.length_reverse, if_neg count]
    have hne : ")" ≠ "(" := by decide
    rw [if_neg count, step_inside, if_neg hne, if_pos rfl, hclose]
    rfl

theorem foldl_push (start : Nat) (op? : Option Op) (es : List Expr) :
    es.foldl Group.push ⟨start, op?, []⟩ = ⟨start, op?, es.reverse⟩ := by
  have hpush : ∀ (es : List Expr) (g : Group), es.foldl Group.push g = g.pushEach es := by
    intro es
    induction es with
    | nil =>
      intro g
      rfl
    | cons e es ih =>
      intro g
      rw [List.foldl_cons, ih, pushEach_cons]
  rw [hpush]
  show Group.mk _ _ _ = _
  rw [List.append_nil]

/-- The operation of a group is read where it stands. -/
theorem along_operation (op : Op) {rest : List Char} (hrest : EndsWord isParenthesis rest)
    (offset start : Nat) (operands : List Expr) (groups : List Group) :
    (reader length).along offset (op.token.toList ++ rest)
        (.inside ⟨start, none, operands⟩ groups)
      = (reader length).along (offset + op.token.utf8ByteSize) rest
          (.inside ⟨start, some op, operands⟩ groups) := by
  have hstep : (reader length).step (.inside ⟨start, none, operands⟩ groups)
      ⟨op.token, offset⟩ = .ok (.inside ⟨start, some op, operands⟩ groups) :=
    step_operation rfl start operands groups
  have hends : EndsWord Notation.operationFirst.isMark rest := hrest
  rw [along_isWord rfl (isWord_token op) hends, hstep]
  rfl

theorem along_open (start : Nat) (rest : List Char) (groups : List Group) :
    (reader length).along start ('(' :: rest) (.before groups)
      = (reader length).along (start + 1) rest (.inside (.opened start) groups) := by
  have hword : (reader length).along start ('(' :: rest) (.before groups)
      = step (.before groups) ⟨"(", start⟩ >>= (reader length).along (start + 1) rest :=
    Reader.along_mark _ (by decide) rfl _
  rw [hword, step_before_open]
  rfl

/-- A parenthesis closes a group, unless the group is to blame. -/
theorem along_close (hn : n ≠ .flat) (op : Op) (operands : List Expr)
    (groups : List Group) (start stop : Nat) (rest : List Char) :
    (reader length).along stop (')' :: rest)
        (.inside ⟨start, some op, operands.reverse⟩ groups)
      = outcome n [⟨.node op operands, start⟩]
          ((reader length).along (stop + 1) rest (.after (.node op operands) groups)) := by
  have hword : (reader length).along stop (')' :: rest)
        (.inside ⟨start, some op, operands.reverse⟩ groups)
      = step (.inside ⟨start, some op, operands.reverse⟩ groups) ⟨")", stop⟩
        >>= (reader length).along (stop + 1) rest :=
    Reader.along_mark _ (by decide) rfl _
  rw [hword, step_node hn, outcome_singleton]
  cases offence n ⟨.node op operands, start⟩ with
  | some fault => rfl
  | none => rfl

/-- A group is taken when what stands between its parentheses reads its
operation and its operands. -/
theorem takes_group (hn : n ≠ .flat) {op : Op} {operands : List Expr} {inner : List Char}
    (htext : ((Expr.node op operands).render n).toList = '(' :: (inner ++ [')']))
    (hinner : ∀ start rest groups,
      (reader length).along (start + 1) (inner ++ ')' :: rest)
          (.inside (.opened start) groups)
        = outcome n (placedEach n (start + operandsStart n op) operands)
            ((reader length).along (start + 1 + byteLength inner) (')' :: rest)
              (.inside ⟨start, some op, operands.reverse⟩ groups)))
    (groups : List Group) :
    Takes (reader length) n (.node op operands) (.before groups)
      (.after (.node op operands) groups) := by
  intro start rest _
  have hplaced : placed n start (.node op operands)
      = placedEach n (start + operandsStart n op) operands
        ++ [⟨.node op operands, start⟩] := by
    rw [placed]
  have hsize : start + ((Expr.node op operands).render n).utf8ByteSize
      = start + 1 + byteLength inner + 1 := by
    have hpar : '('.utf8Size = 1 ∧ byteLength [')'] = 1 := ⟨rfl, rfl⟩
    rw [← byteLength_toList, htext, byteLength_cons, byteLength_append, hpar.1, hpar.2]
    omega
  -- over the one parenthesis, what is inside, and the other
  rw [htext, List.cons_append, List.append_assoc, List.singleton_append, along_open,
    hinner, along_close hn, hplaced, outcome_append, hsize]

/-- The operands of a group are taken one after the other. -/
theorem takes_operands {operands : List Expr}
    (heach : ∀ e ∈ operands, ∀ groups,
      Takes (reader length) n e (.before groups) (.after e groups))
    (groups : List Group) :
    ∀ e ∈ operands, ∀ g : Group,
      Takes (reader length) n e (.inside g groups) (.inside (g.push e) groups) :=
  fun e he g => heach e he (g :: groups)

theorem takes_operationFirst {op : Op} {operands : List Expr}
    (heach : ∀ e ∈ operands, ∀ groups,
      Takes (reader length) .operationFirst e (.before groups) (.after e groups)) :
    ∀ groups, Takes (reader length) .operationFirst (.node op operands) (.before groups)
      (.after (.node op operands) groups) := by
  cases operands with
  | nil =>
    have htext : ((Expr.node op []).render .operationFirst).toList
        = '(' :: ((op.token.toList ++ [' ']) ++ [')']) := by
      rw [toList_operationFirst_nil, List.append_assoc, List.singleton_append]
    refine takes_group (by decide) htext fun start rest groups => ?_
    have hblank : EndsWord isParenthesis (' ' :: ')' :: rest) :=
      endsWord_blank isBlank_space
    have hread : (reader length).along (start + 1) (op.token.toList ++ ' ' :: ')' :: rest)
        (.inside (.opened start) groups) = _ :=
      along_operation op hblank (start + 1) start [] groups
    rw [List.append_assoc, List.singleton_append, hread, Reader.along_space,
      byteLength_append, byteLength_toList]
    rfl
  | cons d ds =>
    have htext : ((Expr.node op (d :: ds)).render .operationFirst).toList
        = '(' :: ((op.token.toList
          ++ (d :: ds).flatMap (fun e => ' ' :: (e.render .operationFirst).toList))
            ++ [')']) := by
      rw [toList_operationFirst_cons, List.append_assoc]
    refine takes_group (by decide) htext fun start rest groups => ?_
    have hblank : EndsWord isParenthesis
        ((d :: ds).flatMap (fun e => ' ' :: (e.render .operationFirst).toList)
          ++ ')' :: rest) := endsWord_blank isBlank_space
    have hread : (reader length).along (start + 1) (op.token.toList ++ _)
        (.inside (.opened start) groups) = _ :=
      along_operation op hblank (start + 1) start [] groups
    have hoperands := takes_blankBefore (takes_operands heach groups)
      (start + 1 + op.token.utf8ByteSize) (')' :: rest) ⟨start, some op, []⟩
      (endsWord_close rest)
    have hstart : start + 1 + op.token.utf8ByteSize + 1
        = start + operandsStart .operationFirst op := by
      show _ = start + (op.token.utf8ByteSize + 2)
      omega
    rw [List.append_assoc, hread, hoperands, foldl_push, hstart, byteLength_append,
      byteLength_toList, byteLength_blankBefore, Nat.add_assoc (start + 1)]

theorem takes_operationLast {op : Op} {operands : List Expr}
    (heach : ∀ e ∈ operands, ∀ groups,
      Takes (reader length) .operationLast e (.before groups) (.after e groups)) :
    ∀ groups, Takes (reader length) .operationLast (.node op operands) (.before groups)
      (.after (.node op operands) groups) := by
  cases operands with
  | nil =>
    have htext : ((Expr.node op []).render .operationLast).toList
        = '(' :: ((' ' :: op.token.toList) ++ [')']) := by
      rw [toList_operationLast_nil, List.cons_append]
    refine takes_group (by decide) htext fun start rest groups => ?_
    have hread : (reader length).along (start + 1 + 1) (op.token.toList ++ ')' :: rest)
        (.inside (.opened start) groups) = _ :=
      along_operation op (endsWord_close rest) (start + 1 + 1) start [] groups
    rw [List.cons_append, Reader.along_space, hread, byteLength_cons, byteLength_toList,
      ← Nat.add_assoc]
    rfl
  | cons d ds =>
    have htext : ((Expr.node op (d :: ds)).render .operationLast).toList
        = '(' :: (((d :: ds).flatMap (fun e => (e.render .operationLast).toList ++ [' '])
          ++ op.token.toList) ++ [')']) := by
      rw [toList_operationLast_cons, List.append_assoc]
    refine takes_group (by decide) htext fun start rest groups => ?_
    have hoperands := takes_blankBehind (takes_operands heach groups) (start + 1)
      (op.token.toList ++ ')' :: rest) (.opened start)
    have hread : (reader length).along (start + 1 + spread .operationLast (d :: ds))
        (op.token.toList ++ ')' :: rest) _ = _ :=
      along_operation op (endsWord_close rest) _ start (d :: ds).reverse groups
    rw [List.append_assoc, hoperands, Group.opened, foldl_push, hread, byteLength_append,
      byteLength_toList, byteLength_blankBehind, Nat.add_assoc (start + 1)]
    rfl

/-- A tree is taken into the innermost of the groups. -/
theorem takes (hn : n ≠ .flat) (e : Expr) :
    ∀ groups, Takes (reader length) n e (.before groups) (.after e groups) := by
  have hmark : (reader length).isMark = n.isMark := by
    cases n with
    | flat => exact absurd rfl hn
    | operationFirst => rfl
    | operationLast => rfl
  induction e with
  | const value =>
    intro groups
    exact takes_const hmark (fun t ht => step_before_leaf ht groups)
      (step_before_nan groups)
  | var v =>
    intro groups
    exact takes_var hmark fun t ht => step_before_leaf ht groups
  | node op operands ih =>
    cases n with
    | flat => exact absurd rfl hn
    | operationFirst => exact takes_operationFirst ih
    | operationLast => exact takes_operationLast ih

end Grouped

/-! ## §5. The text of a tree. -/

/-- Reading the text of a tree fails with the error of the first subtree that is
to blame, and has the tree as its result when there is none. -/
theorem parse_render_outcome {n : Notation} {e : Expr} (hcount : n = .flat → e.WellFormed) :
    parse n (e.render n) = outcome n (placed n 0 e) (.ok e) := by
  have hgrouped : ∀ n ≠ Notation.flat,
      Grouped.parse (e.render n) = outcome n (placed n 0 e) (.ok e) := by
    intro n hn
    have htakes : Takes (Grouped.reader (e.render n).utf8ByteSize) n e .start (.done e) :=
      Grouped.takes hn e []
    have hwhole := htakes 0 [] endsWord_nil
    rw [List.append_nil] at hwhole
    rw [Grouped.parse_eq_along]
    exact hwhole
  cases n with
  | flat =>
    have htakes : Takes (Flat.reader (e.render .flat).utf8ByteSize) .flat e [] [e] :=
      Flat.takes (hcount rfl) []
    have hwhole := htakes 0 [] endsWord_nil
    rw [List.append_nil] at hwhole
    show Flat.parse _ = _
    rw [Flat.parse_eq_along]
    exact hwhole
  | operationFirst => exact hgrouped .operationFirst (by decide)
  | operationLast => exact hgrouped .operationLast (by decide)

/-- The text of a tree is not read as another tree. -/
theorem eq_of_parse_render {n : Notation} {e d : Expr} (hcount : n = .flat → e.WellFormed)
    (h : parse n (e.render n) = .ok d) : d = e := by
  rw [parse_render_outcome hcount] at h
  unfold outcome at h
  split at h
  next => exact absurd h (by simp)
  next =>
    injection h with h
    exact h.symm

/-- Reading the tree's text fails with the error of its first subtree that is to
blame.  The subtree stands where it is placed, and what the error blames stands
at the error's offset. -/
def FailsAtFirst (n : Notation) (e : Expr) : Prop :=
  ∃ before p after fault, placed n 0 e = before ++ p :: after
    ∧ (∀ q ∈ before, offence n q = none) ∧ offence n p = some fault
    ∧ parse n (e.render n) = .error fault
    ∧ StandsAt (e.render n) p.start (p.tree.render n)
    ∧ Cursor.Blames n (e.render n) fault

/-- A tree is read back or fails at its first subtree that is to blame. -/
theorem failsAtFirst_of_not_read {n : Notation} {e : Expr}
    (hcount : n = .flat → e.WellFormed) (hread : parse n (e.render n) ≠ .ok e) :
    FailsAtFirst n e := by
  have houtcome := parse_render_outcome hcount
  unfold outcome at houtcome
  cases hfirst : (placed n 0 e).findSome? (offence n) with
  | none =>
    rw [hfirst] at houtcome
    exact absurd houtcome hread
  | some fault =>
    rw [hfirst] at houtcome
    obtain ⟨before, p, after, hplaced, hoffence, hbefore⟩ :=
      List.findSome?_eq_some_iff.1 hfirst
    have hmem : p ∈ placed n 0 e := by
      rw [hplaced]
      exact List.mem_append_right _ List.mem_cons_self
    exact ⟨before, p, after, fault, hplaced, hbefore, hoffence, houtcome,
      standsAt_of_mem_placed hmem, Cursor.parse_blames houtcome⟩

/-- A tree that flat text cannot show, or that has a NaN, fails in flat text. -/
theorem failsAtFirst_flat {e : Expr} (hcount : e.WellFormed)
    (hoffends : ¬(e.NoVariadic ∧ e.NoNaN)) : FailsAtFirst .flat e := by
  refine failsAtFirst_of_not_read (fun _ => hcount) fun hread => ?_
  have hreadable := readable_of_parse hread
  exact hoffends ⟨noVariadic_of_readable hreadable, noNaN_of_readable hreadable⟩

/-- Without NaN, a subtree of flat text is to blame for an operation that takes
any number of operands. -/
theorem variadic_of_offence {p : Placed} {fault : ParseError} (hnan : p.tree.NoNaN)
    (h : offence .flat p = some fault) :
    ∃ (op : Op) (position : Nat), op.arity = .variadic
      ∧ fault = .variadicInFlat op position := by
  obtain ⟨e, start⟩ := p
  cases e with
  | const value =>
    have hvalue : value.isNaN = false := Expr.everywhere_const.1 hnan
    rw [offence_const, hvalue] at h
    exact absurd h (by simp)
  | var v =>
    rw [offence_var] at h
    exact absurd h (by simp)
  | node op operands =>
    rw [offence_flat] at h
    split at h
    next hop =>
      injection h with h
      exact ⟨op, _, hop, h.symm⟩
    next => exact absurd h (by simp)

/-- The flat text of a tree in which some operation takes any number of operands
is not read back: reading fails with such an operation. -/
theorem parse_flat_render_variadic {e : Expr} (hcount : e.WellFormed) (hnan : e.NoNaN)
    (hvariadic : ¬e.NoVariadic) :
    ∃ (op : Op) (position : Nat), op.arity = .variadic
      ∧ parse .flat (e.render .flat) = .error (.variadicInFlat op position) := by
  obtain ⟨before, p, after, fault, hplaced, -, hoffence, hparse, -⟩ :=
    failsAtFirst_flat hcount fun h => hvariadic h.1
  have hmem : p ∈ placed .flat 0 e := by
    rw [hplaced]
    exact List.mem_append_right _ List.mem_cons_self
  obtain ⟨op, position, hop, rfl⟩ :=
    variadic_of_offence (everywhere_of_mem_placed hnan 0 hmem) hoffence
  exact ⟨op, position, hop, hparse⟩

/-- A tree that cannot be read back is blamed at its first offender.  In the
grouped notations that is one with a constant that is NaN or with an operation
that does not take as many operands as it has; in flat notation, when all
operations do, one with a constant that is NaN or with an operation that takes
any number of operands. -/
theorem parse_render_firstOffender (e : Expr) :
    (∀ n ≠ Notation.flat, ¬(e.WellFormed ∧ e.NoNaN) → FailsAtFirst n e)
      ∧ (e.WellFormed → ¬(e.NoVariadic ∧ e.NoNaN) → FailsAtFirst .flat e) := by
  constructor
  · intro n hn hoffends
    refine failsAtFirst_of_not_read (fun hflat => absurd hflat hn) fun hread => ?_
    have hreadable := readable_of_parse hread
    exact hoffends ⟨wellFormed_of_readable hreadable, noNaN_of_readable hreadable⟩
  · exact failsAtFirst_flat

/-- A group without its operand inside a sum with NaN, and a sum of exponentials
before NaN: in both the first of the two is found. -/
theorem parse_render_firstOffender_nested :
    let e : Expr := .add (.node .negate []) (.const Numeric.nan)
    let f : Expr := .add (.sumExp [.var .x]) (.const Numeric.nan)
    e.render .operationFirst = "(+ (negate ) NaN)" ∧ f.render .flat = "x sumexp NaN +"
      ∧ (placed .operationFirst 0 e).findSome? (offence .operationFirst)
          = some (.arityMismatch ⟨.negate, 0⟩ 3)
      ∧ (placed .flat 0 f).findSome? (offence .flat) = some (.variadicInFlat .sumExp 2)
      ∧ ¬(e.WellFormed ∧ e.NoNaN) ∧ f.WellFormed ∧ ¬(f.NoVariadic ∧ f.NoNaN)
      ∧ FailsAtFirst .operationFirst e ∧ FailsAtFirst .flat f := by
  intro e f
  have he : ¬(e.WellFormed ∧ e.NoNaN) := by
    rintro ⟨hcount, -⟩
    simp [e, Expr.wellFormed_node, Op.arity, Arity.accepts] at hcount
  have hf : f.WellFormed := by
    simp [f, Expr.wellFormed_node, Op.arity, Arity.accepts, Expr.WellFormed.const,
      Expr.WellFormed.var]
  have hf' : ¬(f.NoVariadic ∧ f.NoNaN) := by
    rintro ⟨hfixed, -⟩
    simp [f, Expr.NoVariadic, Demand.onNodes] at hfixed
  exact ⟨by decide +kernel, by decide +kernel, by decide +kernel, by decide +kernel, he, hf,
    hf', (parse_render_firstOffender e).1 .operationFirst (by decide) he,
    (parse_render_firstOffender f).2 hf hf'⟩

end Trivariate.Parse
