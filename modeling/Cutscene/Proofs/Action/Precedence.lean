import Cutscene.Run.Operand
import Mathlib.Data.Prod.Lex
/-!
# Sums — precedence

`NumberTree.join` works from the inside: it joins the strongest pair, the
leftmost of several, until one tree is left. An author reads a row from the
outside: the operator that binds least is the root, the rightmost of several,
and what stands on either side of it is read in the same way. `Reads` is that
reading, and `reads_join` says the two come to the same tree as long as no
depth reaches `deepest`, from where on strengths are no longer told apart.

A tree is computed in the order of its postfix code, one read for each operand
of the row, and the computation is over at the first number that is missing.
-/

namespace Cutscene

namespace NumberTree

variable {first : NumberTree} {links : List Link} {tree : NumberTree}

/-! ## Strength -/

/-- The depth from which on a product is no stronger than a sum. -/
def deepest : Nat := UInt32.size / 2 - 1

/-- How a link binds: by depth first, then products before sums. -/
def Link.rank (l : Link) : Nat ×ₗ Bool := toLex (l.depth, l.operator.isProduct)

/-- Links whose strengths are all told apart. -/
def Shallow (links : List Link) : Prop := ∀ l ∈ links, l.depth < deepest

/-- Below `deepest` no strength is capped. -/
theorem Link.strength_eq {l : Link} (h : l.depth < deepest) :
    l.strength = 2 * l.depth + if l.operator.isProduct then 2 else 1 := by
  have size : UInt32.size = 2 ^ 32 := rfl
  unfold deepest at h
  unfold strength ceiling
  split <;> omega

/-- Below `deepest` the strengths are ordered as the ranks. -/
theorem Link.strength_le_iff {a b : Link} (ha : a.depth < deepest) (hb : b.depth < deepest) :
    a.strength ≤ b.strength ↔ a.rank ≤ b.rank := by
  rw [strength_eq ha, strength_eq hb, rank, rank, Prod.Lex.toLex_le_toLex]
  cases a.operator.isProduct <;> cases b.operator.isProduct <;> simp [Bool.le_iff_imp] <;> omega

/-- A shallower link binds less. -/
theorem Link.rank_lt_of_depth_lt {a b : Link} (h : a.depth < b.depth) : a.rank < b.rank :=
  Prod.Lex.toLex_lt_toLex.2 (.inl h)

/-- At the same depth a sum binds no more than anything. -/
theorem Link.rank_le_of_sum {a b : Link} (depth : a.depth = b.depth)
    (sum : a.operator.isProduct = false) : a.rank ≤ b.rank :=
  Prod.Lex.toLex_le_toLex.2 (.inr ⟨depth, by simp [sum]⟩)

/-- At the same depth a product binds no less than anything. -/
theorem Link.rank_le_of_product {a b : Link} (depth : a.depth = b.depth)
    (product : b.operator.isProduct = true) : a.rank ≤ b.rank :=
  Prod.Lex.toLex_le_toLex.2 (.inr ⟨depth, by simp [product, Bool.le_true]⟩)

/-- At the same depth a sum binds less than a product. -/
theorem Link.rank_lt_of_sum_of_product {a b : Link} (depth : a.depth = b.depth)
    (sum : a.operator.isProduct = false) (product : b.operator.isProduct = true) :
    a.rank < b.rank :=
  Prod.Lex.toLex_lt_toLex.2 (.inr ⟨depth, by simp [sum, product]⟩)

/-! ## Reading a row from the outside -/

/-- **A row as it is read.** The root is the rightmost of the links that bind
least; the row left of it and the row right of it are read likewise. -/
inductive Reads : NumberTree → List Link → NumberTree → Prop
  /-- A row without a link is what stands first in it. -/
  | single (first : NumberTree) : Reads first [] first
  /-- A row is split where it binds least. -/
  | split {first left right : NumberTree} {before : List Link} {link : Link} {after : List Link}
      (least : ∀ l ∈ before, link.rank ≤ l.rank) (rightmost : ∀ l ∈ after, link.rank < l.rank) :
      Reads first before left → Reads link.tree after right →
      Reads first (before ++ link :: after) (.node link.operator left right)

/-- Two ways to cut one list at an element: the cuts are the same, or one of
them lies in what the other cuts off. -/
theorem cut_cases {α : Type} {xs ys us vs : List α} {a b : α}
    (h : xs ++ a :: ys = us ++ b :: vs) :
    (xs = us ∧ a = b ∧ ys = vs) ∨ (∃ zs, us = xs ++ a :: zs ∧ ys = zs ++ b :: vs) ∨
      ∃ zs, xs = us ++ b :: zs ∧ vs = zs ++ a :: ys := by
  rcases List.append_eq_append_iff.1 h with ⟨zs, rfl, cut⟩ | ⟨zs, rfl, cut⟩ <;>
    rcases List.cons_eq_append_iff.1 cut with ⟨rfl, same⟩ | ⟨rest, rfl, rfl⟩
  · obtain ⟨rfl, rfl⟩ := List.cons.inj same
    exact .inl ⟨by simp, rfl, rfl⟩
  · exact .inr (.inl ⟨rest, rfl, rfl⟩)
  · obtain ⟨rfl, rfl⟩ := List.cons.inj same
    exact .inl ⟨by simp, rfl, rfl⟩
  · exact .inr (.inr ⟨rest, rfl, rfl⟩)

/-- A row is read in one way. -/
theorem Reads.unique {other : NumberTree} (h : Reads first links tree)
    (h' : Reads first links other) : tree = other := by
  induction h generalizing other with
  | single =>
    generalize none : [] = row at h'
    cases h' with
    | single => rfl
    | split => simp at none
  | @split first left right before link after least rightmost _ _ ihleft ihright =>
    generalize cut : before ++ link :: after = row at h'
    cases h' with
    | single => simp at cut
    | split least' rightmost' hleft hright =>
      -- of two different cuts, the left one is stronger than the right and not weaker
      rcases cut_cases cut with ⟨rfl, rfl, rfl⟩ | ⟨zs, rfl, rfl⟩ | ⟨zs, rfl, rfl⟩
      · rw [ihleft hleft, ihright hright]
      · exact absurd (least' link (by simp)) (rightmost _ (by simp)).not_ge
      · exact absurd (least _ (by simp)) (rightmost' link (by simp)).not_ge

/-- **A join at the front is undone.** A row that starts with a joined pair
reads as the row before the join, where nothing in it is stronger. -/
theorem Reads.unjoin_front {m : Link} (h : Reads (.node m.operator first m.tree) links tree)
    (strongest : ∀ l ∈ links, l.rank ≤ m.rank) : Reads first (m :: links) tree := by
  generalize joined : NumberTree.node m.operator first m.tree = start at h
  induction h with
  | single =>
    subst joined
    have pair : Reads first ([] ++ m :: []) (.node m.operator first m.tree) :=
      .split (by simp) (by simp) (.single first) (.single m.tree)
    exact pair
  | @split _ left right before link after least rightmost _ hright ihleft _ =>
    have left : Reads first (m :: before) left :=
      ihleft (fun l hl => strongest l (List.mem_append_left _ hl)) joined
    have least : ∀ l ∈ m :: before, link.rank ≤ l.rank := by
      intro l hl
      rcases List.mem_cons.1 hl with rfl | hl
      · exact strongest link (by simp)
      · exact least l hl
    exact .split least rightmost left hright

/-- **A join further on is undone.** The pair is read at the place of its left
link, and the cut that reads it stands before the pair, after it or at it. -/
theorem Reads.unjoin {p m : Link} {xs ys : List Link}
    (h : Reads first (xs ++ { p with tree := .node m.operator p.tree m.tree } :: ys) tree)
    (stronger : p.rank < m.rank) (strongest : ∀ l ∈ ys, l.rank ≤ m.rank) :
    Reads first (xs ++ p :: m :: ys) tree := by
  generalize row : xs ++ { p with tree := NumberTree.node m.operator p.tree m.tree } :: ys = links
    at h
  induction h generalizing xs ys with
  | single => simp at row
  | @split first left right before link after least rightmost hleft hright ihleft ihright =>
    rcases cut_cases row with ⟨rfl, rfl, rfl⟩ | ⟨zs, rfl, rfl⟩ | ⟨zs, rfl, rfl⟩
    · have rightmost : ∀ l ∈ m :: ys, p.rank < l.rank := by
        intro l hl
        rcases List.mem_cons.1 hl with rfl | hl
        · exact stronger
        · exact rightmost l hl
      exact .split least rightmost hleft (hright.unjoin_front strongest)
    · have left := ihleft (fun l hl => strongest l (by simp [hl])) rfl
      rw [show xs ++ p :: m :: (zs ++ link :: after) = (xs ++ p :: m :: zs) ++ link :: after by
        simp]
      refine .split ?_ rightmost left hright
      intro l hl
      simp only [List.mem_append, List.mem_cons] at hl
      rcases hl with hl | hl | rfl | hl
      · exact least l (by simp [hl])
      · exact hl ▸ least { p with tree := .node m.operator p.tree m.tree } (by simp)
      · exact strongest link (by simp)
      · exact least l (by simp [hl])
    · have right := ihright strongest rfl
      rw [show before ++ link :: zs ++ p :: m :: ys = before ++ link :: (zs ++ p :: m :: ys) by
        simp]
      refine .split least ?_ hleft right
      have below : link.rank < p.rank :=
        rightmost { p with tree := .node m.operator p.tree m.tree } (by simp)
      intro l hl
      simp only [List.mem_append, List.mem_cons] at hl
      rcases hl with hl | rfl | rfl | hl
      · exact rightmost l (by simp [hl])
      · exact below
      · exact below.trans stronger
      · exact rightmost l (by simp [hl])

/-! ## Joining from the inside -/

/-- **What a join does**: the leftmost of the strongest links goes to what
stands before it, which is the front of the row or the link to its left. -/
inductive Joins : NumberTree → List Link → NumberTree × List Link → Prop
  /-- The strongest link stands at the front. -/
  | front {first : NumberTree} {m : Link} {ys : List Link} (strongest : ∀ l ∈ ys, l.rank ≤ m.rank) :
      Joins first (m :: ys) (.node m.operator first m.tree, ys)
  /-- The strongest link has a weaker one to its left. -/
  | after {first : NumberTree} {xs : List Link} {p m : Link} {ys : List Link}
      (stronger : p.rank < m.rank) (strongest : ∀ l ∈ ys, l.rank ≤ m.rank) :
      Joins first (xs ++ p :: m :: ys)
        (first, xs ++ { p with tree := .node m.operator p.tree m.tree } :: ys)

/-- `joinStrongest` makes such a join. -/
theorem joins_joinStrongest {link : Link} {rest : List Link} (shallow : Shallow (link :: rest)) :
    Joins first (link :: rest) (joinStrongest first (link :: rest)) := by
  have here := shallow link (by simp)
  induction rest generalizing first link with
  | nil => exact .front (by simp)
  | cons next rest ih =>
    have order : ∀ l ∈ next :: rest, (l.strength ≤ link.strength ↔ l.rank ≤ link.rank) :=
      fun l hl => Link.strength_le_iff (shallow l (.tail _ hl)) here
    rw [joinStrongest]
    split
    next all =>
      refine .front fun l hl => (order l hl).1 ?_
      exact of_decide_eq_true (List.all_eq_true.1 all l hl)
    next all =>
      have inner : Joins link.tree (next :: rest) (joinStrongest link.tree (next :: rest)) :=
        ih (fun l hl => shallow l (.tail _ hl)) (shallow next (by simp))
      generalize result : joinStrongest link.tree (next :: rest) = joined at inner
      generalize others : next :: rest = row at inner
      cases inner with
      | front strongest =>
        obtain ⟨rfl, rfl⟩ := List.cons.inj others
        -- some link to the right is stronger than this one, and the strongest is no weaker
        obtain ⟨l, hl, stronger⟩ : ∃ l ∈ next :: rest, ¬ l.strength ≤ link.strength := by
          simpa only [List.all_eq_true, decide_eq_true_eq, not_forall, exists_prop] using all
        have above : link.rank < l.rank := not_le.1 fun le => stronger ((order l hl).2 le)
        have top : l.rank ≤ next.rank := by
          rcases List.mem_cons.1 hl with rfl | hl
          · exact le_rfl
          · exact strongest l hl
        exact @Joins.after first [] link next rest (above.trans_le top) strongest
      | @after xs p m ys stronger strongest =>
        exact @Joins.after first (link :: xs) p m ys stronger strongest

/-- What a join leaves is as shallow as what it found. -/
theorem Joins.shallow {joined : NumberTree × List Link} (h : Joins first links joined)
    (shallow : Shallow links) : Shallow joined.2 := by
  intro l hl
  cases h with
  | front => exact shallow l (.tail _ hl)
  | @after xs p m ys =>
    simp only [List.mem_append, List.mem_cons] at hl
    rcases hl with hl | rfl | hl
    · exact shallow l (by simp [hl])
    · exact shallow p (by simp)
    · exact shallow l (by simp [hl])

/-- A join does not change how the row reads. -/
theorem Joins.reads {joined : NumberTree × List Link} (h : Joins first links joined)
    (reads : Reads joined.1 joined.2 tree) : Reads first links tree := by
  cases h with
  | front strongest => exact reads.unjoin_front strongest
  | after stronger strongest => exact reads.unjoin stronger strongest

/-- **Joining reads the row.** -/
theorem reads_join (shallow : Shallow links) : Reads first links (join first links) := by
  fun_induction join first links with
  | case1 first => exact .single first
  | case2 first operator depth tree links joined ih =>
    have joins : Joins first (⟨operator, depth, tree⟩ :: links) joined :=
      joins_joinStrongest shallow
    exact joins.reads (ih (joins.shallow shallow))

end NumberTree

/-- A term as a link to what stands before it. -/
def Term.link (t : Term) : NumberTree.Link := ⟨t.operator, t.depth, .leaf t.operand⟩

namespace NumberTree

/-- The tree of a row is the one it reads as, and it reads as no other. -/
theorem ofTerms?_eq_iff {term : Term} {rest : List Term} (shallow : ∀ t ∈ rest, t.depth < deepest) :
    ofTerms? (term :: rest) = some tree ↔ Reads (.leaf term.operand) (rest.map Term.link) tree := by
  have reads : Reads (.leaf term.operand) (rest.map Term.link)
      (join (.leaf term.operand) (rest.map Term.link)) :=
    reads_join (List.forall_mem_map.2 shallow)
  refine ⟨fun made => ?_, fun read => ?_⟩
  · rw [← Option.some.inj made]
    exact reads
  · rw [← reads.unique read]
    rfl

/-! ## The row of a tree -/

/-- The operands of a tree from left to right. -/
def operands : NumberTree → List NumberInput
  | .leaf operand => [operand]
  | .node _ left right => left.operands ++ right.operands

/-- Reading keeps the order of the operands. -/
theorem Reads.operands_eq (h : Reads first links tree) :
    tree.operands = first.operands ++ links.flatMap fun l => l.tree.operands := by
  induction h with
  | single => simp
  | split _ _ _ _ ihleft ihright => simp [operands, ihleft, ihright]

/-- How many operators stand above one another in a tree. -/
def height : NumberTree → Nat
  | .leaf _ => 0
  | .node _ left right => max left.height right.height + 1

/-- **A tree written as a row.** A term carries the operator to its left, as
deep as that operator stands in the tree; `operator` and `depth` are those of
the first term. -/
def row (operator : Arithmetic) (depth level : Nat) : NumberTree → List Term
  | .leaf operand => [⟨operator, operand, depth⟩]
  | .node root left right => left.row operator depth (level + 1) ++ right.row root level (level + 1)

/-- A row has a first term, and only that one depends on what joins it. -/
theorem row_eq (tree : NumberTree) (level : Nat) : ∃ (operand : NumberInput) (rest : List Term),
    ∀ operator depth, tree.row operator depth level = ⟨operator, operand, depth⟩ :: rest := by
  induction tree generalizing level with
  | leaf operand => exact ⟨operand, [], fun _ _ => rfl⟩
  | node root left right ihleft _ =>
    obtain ⟨operand, rest, starts⟩ := ihleft (level + 1)
    exact ⟨operand, rest ++ right.row root level (level + 1), fun o d => by simp [row, starts]⟩

/-- The operators of a row are as deep as they stand in the tree. -/
theorem depth_of_mem_row {tree : NumberTree} {operator : Arithmetic} {depth level : Nat}
    {operand : NumberInput} {rest : List Term}
    (h : tree.row operator depth level = ⟨operator, operand, depth⟩ :: rest) :
    ∀ t ∈ rest, level ≤ t.depth ∧ t.depth < level + tree.height := by
  induction tree generalizing operator depth level operand rest with
  | leaf =>
    obtain ⟨-, rfl⟩ := List.cons.inj h
    simp
  | node root left right ihleft ihright =>
    obtain ⟨first, before, starts⟩ := left.row_eq (level + 1)
    obtain ⟨second, after, resumes⟩ := right.row_eq (level + 1)
    simp only [row, starts, resumes, List.cons_append, List.cons.injEq] at h
    obtain ⟨-, rfl⟩ := h
    intro t ht
    simp only [height]
    simp only [List.mem_append, List.mem_cons] at ht
    rcases ht with ht | rfl | ht
    · have := ihleft (starts operator depth) t ht
      omega
    · exact ⟨le_rfl, by simp only; omega⟩
    · have := ihright (resumes root level) t ht
      omega

/-- **The row of a tree reads as the tree**: what stands beside the root is
deeper than the root. -/
theorem reads_row {tree : NumberTree} {operator : Arithmetic} {depth level : Nat}
    {operand : NumberInput} {rest : List Term}
    (h : tree.row operator depth level = ⟨operator, operand, depth⟩ :: rest) :
    Reads (.leaf operand) (rest.map Term.link) tree := by
  induction tree generalizing operator depth level operand rest with
  | leaf =>
    obtain ⟨same, rfl⟩ := List.cons.inj h
    obtain rfl : _ = operand := congrArg Term.operand same
    exact .single _
  | node root left right ihleft ihright =>
    obtain ⟨first, before, starts⟩ := left.row_eq (level + 1)
    obtain ⟨second, after, resumes⟩ := right.row_eq (level + 1)
    simp only [row, starts, resumes, List.cons_append, List.cons.injEq] at h
    obtain ⟨same, rfl⟩ := h
    obtain rfl : first = operand := congrArg Term.operand same
    have deeper : ∀ l ∈ before.map Term.link ++ after.map Term.link,
        (Term.link ⟨root, second, level⟩).rank < l.rank := by
      intro l hl
      rw [← List.map_append] at hl
      obtain ⟨t, ht, rfl⟩ := List.mem_map.1 hl
      refine Link.rank_lt_of_depth_lt ?_
      rcases List.mem_append.1 ht with ht | ht
      · exact (depth_of_mem_row (starts operator depth) t ht).1
      · exact (depth_of_mem_row (resumes root level) t ht).1
    rw [List.map_append, List.map_cons]
    exact .split (fun l hl => (deeper l (by simp [hl])).le) (fun l hl => deeper l (by simp [hl]))
      (ihleft (starts operator depth)) (ihright (resumes root level))

/-! ## Rows of one depth -/

/-- The sum before a product, joined with the product. -/
def close : Option (Arithmetic × NumberTree) → NumberTree → NumberTree
  | none, product => product
  | some (operator, sum), product => .node operator sum product

/-- **The usual reading** of a row without brackets, from left to right: a
product goes on with the factor that follows, a sum takes the product that is
done and starts the next. -/
def usual (sum : Option (Arithmetic × NumberTree)) (product : NumberTree) :
    List Link → NumberTree
  | [] => close sum product
  | link :: rest =>
    if link.operator.isProduct then usual sum (.node link.operator product link.tree) rest
    else usual (some (link.operator, close sum product)) link.tree rest

/-- What the usual reading has read so far, at one depth: a product that is
still open, after a sum that is not. -/
inductive Open (depth : Nat) (first : NumberTree) :
    List Link → Option (Arithmetic × NumberTree) → NumberTree → Prop
  /-- Nothing but a product so far. -/
  | product {factors : List Link} {product : NumberTree}
      (deep : ∀ l ∈ factors, l.depth = depth ∧ l.operator.isProduct = true) :
      Reads first factors product → Open depth first factors none product
  /-- A sum and the product after it. -/
  | sum {before factors : List Link} {link : Link} {sum product : NumberTree}
      (even : ∀ l ∈ before, l.depth = depth) (here : link.depth = depth)
      (isSum : link.operator.isProduct = false)
      (deep : ∀ l ∈ factors, l.depth = depth ∧ l.operator.isProduct = true) :
      Reads first before sum → Reads link.tree factors product →
      Open depth first (before ++ link :: factors) (some (link.operator, sum)) product

/-- A product goes on with one factor more. -/
theorem Reads.times {link : Link} {depth : Nat} (h : Reads first links tree)
    (deep : ∀ l ∈ links, l.depth = depth ∧ l.operator.isProduct = true)
    (here : link.depth = depth) :
    Reads first (links ++ [link]) (.node link.operator tree link.tree) := by
  refine .split (fun l hl => ?_) (by simp) h (.single link.tree)
  exact Link.rank_le_of_product (here.trans (deep l hl).1.symm) (deep l hl).2

variable {depth : Nat} {sum : Option (Arithmetic × NumberTree)} {product : NumberTree}

/-- What has been read reads as the sum, closed. -/
theorem Open.reads (h : Open depth first links sum product) :
    Reads first links (close sum product) := by
  cases h with
  | product _ reads => exact reads
  | sum even here isSum deep sum product =>
    refine .split (fun l hl => ?_) (fun l hl => ?_) sum product
    · exact Link.rank_le_of_sum (here.trans (even l hl).symm) isSum
    · exact Link.rank_lt_of_sum_of_product (here.trans (deep l hl).1.symm) isSum (deep l hl).2

/-- Everything read so far is of the one depth. -/
theorem Open.even (h : Open depth first links sum product) : ∀ l ∈ links, l.depth = depth := by
  cases h with
  | product deep => exact fun l hl => (deep l hl).1
  | sum even here _ deep =>
    intro l hl
    simp only [List.mem_append, List.mem_cons] at hl
    rcases hl with hl | rfl | hl
    · exact even l hl
    · exact here
    · exact (deep l hl).1

/-- A factor more. -/
theorem Open.times {link : Link} (h : Open depth first links sum product)
    (here : link.depth = depth) (isProduct : link.operator.isProduct = true) :
    Open depth first (links ++ [link]) sum (.node link.operator product link.tree) := by
  have longer : ∀ {factors : List Link},
      (∀ l ∈ factors, l.depth = depth ∧ l.operator.isProduct = true) →
      ∀ l ∈ factors ++ [link], l.depth = depth ∧ l.operator.isProduct = true := by
    intro factors deep l hl
    rcases List.mem_append.1 hl with hl | hl
    · exact deep l hl
    · obtain rfl := List.mem_singleton.1 hl
      exact ⟨here, isProduct⟩
  cases h with
  | product deep reads => exact .product (longer deep) (reads.times deep here)
  | sum even below isSum deep sum product =>
    rw [List.append_assoc, List.cons_append]
    exact .sum even below isSum (longer deep) sum (product.times deep here)

/-- The usual reading of a row of one depth reads it. -/
theorem Open.reads_usual {rest : List Link} (h : Open depth first links sum product)
    (even : ∀ l ∈ rest, l.depth = depth) :
    Reads first (links ++ rest) (usual sum product rest) := by
  induction rest generalizing links sum product with
  | nil =>
    rw [List.append_nil]
    exact h.reads
  | cons link rest ih =>
    have here := even link (by simp)
    have later : ∀ l ∈ rest, l.depth = depth := fun l hl => even l (.tail _ hl)
    rw [show links ++ link :: rest = (links ++ [link]) ++ rest by simp, usual]
    split
    next isProduct => exact ih (h.times here isProduct) later
    next isSum =>
      exact ih (.sum h.even here (by simpa using isSum) (by simp) h.reads (.single _)) later

/-! ## Computing -/

/-- A step of computing: an operand is read, or the last two numbers are
computed with. -/
inductive Code where
  | read (operand : NumberInput)
  | apply (operator : Arithmetic)

/-- The postfix code of a tree. -/
def code : NumberTree → List Code
  | .leaf operand => [.read operand]
  | .node operator left right => left.code ++ right.code ++ [.apply operator]

/-- The operand that a step reads. -/
def Code.operand? : Code → Option NumberInput
  | .read operand => some operand
  | .apply _ => none

/-- The code reads each operand of the tree once, from left to right. -/
theorem operands_code (tree : NumberTree) : tree.code.filterMap Code.operand? = tree.operands := by
  induction tree with
  | leaf => rfl
  | node operator left right ihleft ihright =>
    simp [code, operands, ihleft, ihright, Code.operand?]

/-- **Code run on a stack of numbers**, the last one first. The run is over,
with nothing, at the first operand without a value and at the first result
that is not finite. -/
def Code.run (read : NumberInput → Draw (Option Float)) :
    List Code → List Float → Draw (Option Float)
  | [], stack => pure stack.head?
  | .read operand :: rest, stack => do
    match ← read operand with
    | none => pure none
    | some x => run read rest (x :: stack)
  | .apply operator :: rest, b :: a :: stack =>
    match finite? (operator.apply a b) with
    | none => pure none
    | some x => run read rest (x :: stack)
  | .apply _ :: _, _ => pure none

/-- The code of a tree puts the tree's number on the stack, or ends the run. -/
theorem run_code (read : NumberInput → Draw (Option Float)) (tree : NumberTree) (rest : List Code)
    (stack : List Float) : Code.run read (tree.code ++ rest) stack = (do
      match ← tree.compute read with
      | none => pure none
      | some x => Code.run read rest (x :: stack)) := by
  induction tree generalizing rest stack with
  | leaf operand => rfl
  | node operator left right ihleft ihright =>
    simp only [code, compute, List.append_assoc, List.singleton_append, ihleft, bind_assoc]
    refine bind_congr fun a => ?_
    cases a with
    | none => simp
    | some a =>
      simp only [ihright, bind_assoc]
      refine bind_congr fun b => ?_
      cases b with
      | none => simp
      | some b => simp only [Code.run, pure_bind]

/-- A tree is computed as its code is run. -/
theorem compute_eq_run (read : NumberInput → Draw (Option Float)) (tree : NumberTree) :
    tree.compute read = Code.run read tree.code [] := by
  have run := run_code read tree [] []
  rw [List.append_nil] at run
  rw [run]
  conv_lhs => rw [← bind_pure (tree.compute read)]
  refine bind_congr fun x => ?_
  cases x <;> rfl

/-! ## Rows and their numbers -/

/-- **A row comes to the number its author reads in it.** Its tree is the one
it reads as from the outside; the tree is computed in the order of the row,
up to the first number that is missing. Any tree can be written as a row by
the depths of its operators, and a row of one depth reads as usual. -/
theorem ofTerms?_precedence :
    (∀ (term : Term) (rest : List Term), (∀ t ∈ rest, t.depth < deepest) →
      ∃ tree, ofTerms? (term :: rest) = some tree ∧
        (∀ other, Reads (.leaf term.operand) (rest.map Term.link) other ↔ other = tree) ∧
        tree.code.filterMap Code.operand? = (term :: rest).map Term.operand ∧
        ∀ read : NumberInput → Draw (Option Float), tree.compute read = Code.run read tree.code []) ∧
    (∀ (tree : NumberTree) (operator : Arithmetic) (depth : Nat), tree.height ≤ deepest →
      ofTerms? (tree.row operator depth 0) = some tree) ∧
    ∀ (term : Term) (rest : List Term) (depth : Nat), depth < deepest →
      (∀ t ∈ rest, t.depth = depth) →
      ofTerms? (term :: rest) = some (usual none (.leaf term.operand) (rest.map Term.link)) := by
  refine ⟨fun term rest shallow => ?_, fun tree operator depth low => ?_,
    fun term rest depth shallow even => ?_⟩
  · obtain ⟨tree, made⟩ : ∃ tree, ofTerms? (term :: rest) = some tree := ⟨_, rfl⟩
    have reads := (ofTerms?_eq_iff shallow).1 made
    refine ⟨tree, made, fun other => ?_, ?_, tree.compute_eq_run⟩
    · exact ⟨fun h => h.unique reads, fun h => h ▸ reads⟩
    · rw [operands_code, reads.operands_eq, List.flatMap_map, List.map_cons, List.map_eq_flatMap]
      rfl
  · obtain ⟨operand, rest, starts⟩ := tree.row_eq 0
    rw [starts]
    refine (ofTerms?_eq_iff fun t ht => ?_).2 (reads_row (starts operator depth))
    have := depth_of_mem_row (starts operator depth) t ht
    omega
  · have opened : Open depth (.leaf term.operand) [] none (.leaf term.operand) :=
      .product (by simp) (.single _)
    have reads : Reads (.leaf term.operand) ([] ++ rest.map Term.link)
        (usual none (.leaf term.operand) (rest.map Term.link)) :=
      opened.reads_usual (List.forall_mem_map.2 even)
    exact (ofTerms?_eq_iff fun t ht => (even t ht).trans_lt shallow).2 reads

/-- Eight less three less two, and eight less three times two. -/
theorem precedence_of_differences :
    (∃ tree, ofTerms? [⟨.add, .literal 8, 0⟩, ⟨.sub, .literal 3, 0⟩, ⟨.mul, .literal 2, 1⟩] =
        some tree ∧
      tree.code.filterMap Code.operand? = [.literal 8, .literal 3, .literal 2]) ∧
    ofTerms? [⟨.add, .literal 8, 0⟩, ⟨.sub, .literal 3, 1⟩, ⟨.sub, .literal 2, 0⟩] =
      some (.node .sub (.node .sub (.leaf (.literal 8)) (.leaf (.literal 3))) (.leaf (.literal 2))) ∧
    ofTerms? [⟨.add, .literal 8, 0⟩, ⟨.sub, .literal 3, 0⟩, ⟨.mul, .literal 2, 0⟩] =
      some (.node .sub (.leaf (.literal 8)) (.node .mul (.leaf (.literal 3)) (.leaf (.literal 2)))) := by
  obtain ⟨rows, trees, even⟩ := ofTerms?_precedence
  refine ⟨?_, trees (.node .sub (.node .sub (.leaf (.literal 8)) (.leaf (.literal 3)))
    (.leaf (.literal 2))) .add 0 (by decide), ?_⟩
  · obtain ⟨tree, made, -, order, -⟩ := rows ⟨.add, .literal 8, 0⟩
      [⟨.sub, .literal 3, 0⟩, ⟨.mul, .literal 2, 1⟩] (by decide)
    exact ⟨tree, made, order⟩
  · exact even ⟨.add, .literal 8, 0⟩ [⟨.sub, .literal 3, 0⟩, ⟨.mul, .literal 2, 0⟩] 0 (by decide)
      (by decide)

end NumberTree

end Cutscene
