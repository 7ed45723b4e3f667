import ArenaScript.Proofs.Expression.Precedence

/-!
# The recorded reduction

Steps that build trees are recorded in the order in which they are taken.  The
record of a row of factors lists the suffixes from left to right, then the
leading operators of each factor from the inside out, then the joining operators
by level.  The tree at the end is the conventional reading, and each operand of
the list occurs in one step only.
-/

namespace ArenaScript.Reduction

variable {β γ κ : Type}

/-! ## Records -/

abbrev Recorder := StateM (List (Step Tree))

def record (s : Step Tree) : Recorder Tree := fun log => (.ofStep s, log ++ [s])

theorem map_recorded (x : Recorder β) (f : β → γ) (log : List (Step Tree)) :
    (f <$> x) log = (f (x log).1, (x log).2) := rfl

/-- The computation gives something with `P` after it has applied `ops` in this
order. -/
def Logs (x : Recorder β) (P : β → Prop) (ops : List Node) : Prop :=
  ∀ log, P (x log).1 ∧
    ∃ steps, (x log).2 = log ++ steps ∧
      steps.map (fun s => s.operator.node) = ops

namespace Logs

variable {P P' : β → Prop} {Q : γ → Prop} {ops ops' : List Node}

theorem pure {b : β} (h : P b) : Logs (pure b) P [] := by
  intro log
  exact ⟨h, [], (List.append_nil log).symm, rfl⟩

theorem bind {x : Recorder β} {f : β → Recorder γ} (hx : Logs x P ops)
    (hf : ∀ b, P b → Logs (f b) Q ops') : Logs (x >>= f) Q (ops ++ ops') := by
  intro log
  obtain ⟨hb, steps, hsteps, hops⟩ := hx log
  obtain ⟨hc, steps', hsteps', hops'⟩ := hf _ hb (x log).2
  refine ⟨hc, steps ++ steps', ?_, by rw [List.map_append, hops, hops']⟩
  rw [← List.append_assoc, ← hsteps]
  exact hsteps'

theorem mono {x : Recorder β} (hx : Logs x P ops) (himp : ∀ b, P b → P' b) :
    Logs x P' ops :=
  fun log => ⟨himp _ (hx log).1, (hx log).2⟩

theorem map {x : Recorder β} {f : β → γ} (hx : Logs x P ops)
    (hf : ∀ b, P b → Q (f b)) : Logs (f <$> x) Q ops := by
  rw [map_eq_pure_bind, ← List.append_nil ops]
  exact hx.bind fun b hb => .pure (hf b hb)

theorem record {s : Step Tree} {P : Tree → Prop} (h : P (.ofStep s)) :
    Logs (record s) P [s.operator.node] :=
  fun _ => ⟨h, [s], rfl, rfl⟩

end Logs

/-! ## The phases on trees -/

def Tree.Within (n : Nat) (t : Tree) : Prop := t.level ≤ n ∧ t.Proper

def Suffix.node {α : Type} : Suffix α → Node
  | .trailing node => node
  | .access node _ _ => node

theorem suffixes_logs {suffixes : List (Suffix Tree)} {t : Tree}
    (ht : t.Within 1)
    (hnames : ∀ node name dot, .access node name dot ∈ suffixes →
      name.Within 0) :
    Logs (suffixes.foldlM (Suffix.attach record) t) (Tree.Within 1)
      (suffixes.map Suffix.node) := by
  induction suffixes generalizing t with
  | nil => exact .pure ht
  | cons suffix suffixes ih =>
      rw [List.foldlM_cons, List.map_cons]
      have hstep : Logs (Suffix.attach record t suffix) (Tree.Within 1)
          [suffix.node] := by
        cases suffix with
        | trailing node => exact .record ⟨Nat.le_refl 1, ht⟩
        | access node name dot =>
            have hname := hnames node name dot List.mem_cons_self
            have hlevel : priority node.symbol .joining = 1 := by
              simp [dot, priority]
            refine .record ⟨Nat.le_of_eq hlevel, ⟨?_, ht.2⟩, ?_, hname.2⟩
            · simpa only [hlevel, Operator.make] using ht.1
            · simpa only [hlevel, Operator.make] using Nat.lt_succ_of_le hname.1
      exact hstep.bind fun u hu => ih hu fun node name dot hmem =>
        hnames node name dot (List.mem_cons_of_mem suffix hmem)

theorem leading_logs {nodes : List Node} {t : Tree} (ht : t.Within 2) :
    Logs (nodes.foldlM
      (fun t node => record (.leading (.make node .leading) t)) t)
      (Tree.Within 2) nodes := by
  induction nodes generalizing t with
  | nil => exact .pure ht
  | cons node nodes ih =>
      rw [List.foldlM_cons]
      exact Logs.bind (.record ⟨Nat.le_refl 2, ht⟩) fun u hu => ih hu

theorem mapRest_logs {f : β → Recorder γ} {P : β → Prop} {Q : γ → Prop}
    {ops : β → List Node} {key : β → κ} {key' : γ → κ}
    (hf : ∀ b, P b → Logs (f b) (fun c => Q c ∧ key' c = key b) (ops b))
    (rest : List (Node × β)) (hrest : ∀ part ∈ rest, P part.2) :
    Logs (mapRest f rest)
      (fun rest' => (∀ part ∈ rest', Q part.2) ∧
        rest'.map (fun part => (part.1, key' part.2)) =
          rest.map fun part => (part.1, key part.2))
      (rest.flatMap fun part => ops part.2) := by
  induction rest with
  | nil => exact .pure ⟨by simp, rfl⟩
  | cons part rest ih =>
      rw [List.forall_mem_cons] at hrest
      rw [List.flatMap_cons]
      refine (hf part.2 hrest.1).bind fun c hc => ?_
      rw [← List.append_nil (rest.flatMap _)]
      refine (ih hrest.2).bind fun rest' hrest' => .pure ?_
      rw [List.forall_mem_cons]
      exact ⟨⟨hc.1, hrest'.1⟩, by simp [hc.2, hrest'.2]⟩

def Row.parts (r : Row β) : List β := r.first :: r.rest.map Prod.snd

def Row.nodes (r : Row β) : List Node := r.rest.map Prod.fst

theorem Row.mapM_logs {f : β → Recorder γ} {P : β → Prop} {Q : γ → Prop}
    {ops : β → List Node} (key : β → κ) (key' : γ → κ)
    (hf : ∀ b, P b → Logs (f b) (fun c => Q c ∧ key' c = key b) (ops b))
    {r : Row β} (hr : ∀ b ∈ r.parts, P b) :
    Logs (r.mapM f)
      (fun r' => (∀ c ∈ r'.parts, Q c) ∧ r'.nodes = r.nodes ∧
        r'.parts.map key' = r.parts.map key)
      (r.parts.flatMap ops) := by
  rw [Row.parts, List.forall_mem_cons] at hr
  rw [Row.parts, List.flatMap_cons]
  refine (hf r.first hr.1).bind fun c hc => ?_
  have hrest := mapRest_logs hf r.rest fun part hpart =>
    hr.2 part.2 (List.mem_map_of_mem hpart)
  rw [← List.append_nil (List.flatMap _ _), List.flatMap_map]
  refine hrest.bind fun rest' hrest' => .pure ⟨?_, ?_, ?_⟩
  · simp only [Row.parts, List.forall_mem_cons, List.forall_mem_map]
    exact ⟨hc.1, hrest'.1⟩
  · have hnodes := congrArg (List.map Prod.fst) hrest'.2
    simpa [Row.nodes, Function.comp_def] using hnodes
  · have hkeys := congrArg (List.map Prod.snd) hrest'.2
    simpa [Row.parts, Function.comp_def, hc.2] using hkeys

def ofLevel (level : Nat) (nodes : List Node) : List Node :=
  nodes.filter fun node => priority node.symbol .joining = level

def notOfLevel (level : Nat) (nodes : List Node) : List Node :=
  nodes.filter fun node => priority node.symbol .joining ≠ level

theorem ofLevel_notOfLevel {level later : Nat} (h : later ≠ level)
    (nodes : List Node) :
    ofLevel later (notOfLevel level nodes) = ofLevel later nodes := by
  rw [ofLevel, notOfLevel, List.filter_filter]
  apply List.filter_congr
  intro node _
  by_cases heq : priority node.symbol .joining = later
  · simp [heq, h]
  · simp [heq]

theorem joinLevel_logs {level : Nat} {t : Tree} {rest : List (Node × Tree)}
    (ht : t.Within level)
    (hrest : ∀ part ∈ rest, part.2.level < level ∧ part.2.Proper) :
    Logs (joinLevel record level t rest)
      (fun r => (∀ u ∈ r.parts, u.Within level) ∧
        r.nodes = notOfLevel level (rest.map Prod.fst))
      (ofLevel level (rest.map Prod.fst)) := by
  induction rest generalizing t with
  | nil => exact .pure ⟨by simpa [Row.parts] using ht, rfl⟩
  | cons part rest ih =>
      obtain ⟨node, u⟩ := part
      rw [List.forall_mem_cons] at hrest
      rw [joinLevel, List.map_cons]
      by_cases hlevel : priority node.symbol .joining = level
      · have hthis : ofLevel level (node :: rest.map Prod.fst) =
            [node] ++ ofLevel level (rest.map Prod.fst) := by
          simp [ofLevel, hlevel]
        have hothers : notOfLevel level (node :: rest.map Prod.fst) =
            notOfLevel level (rest.map Prod.fst) := by simp [notOfLevel, hlevel]
        have hstep : Logs (record (.joining t (.make node .joining) u))
            (Tree.Within level) [node] := by
          refine .record ⟨Nat.le_of_eq hlevel, ?_⟩
          simpa only [Tree.ofStep, Tree.Proper, Operator.make, hlevel]
            using ⟨ht, hrest.1⟩
        rw [if_pos hlevel, hthis, hothers]
        exact hstep.bind fun v hv => ih hv hrest.2
      · have hthis : ofLevel level (node :: rest.map Prod.fst) =
            ofLevel level (rest.map Prod.fst) ++ [] := by simp [ofLevel, hlevel]
        have hothers : notOfLevel level (node :: rest.map Prod.fst) =
            node :: notOfLevel level (rest.map Prod.fst) := by
          simp [notOfLevel, hlevel]
        rw [if_neg hlevel, hthis, hothers]
        refine (ih ⟨Nat.le_of_lt hrest.1.1, hrest.1.2⟩ hrest.2).bind fun r hr =>
          .pure ⟨?_, ?_⟩
        · have hparts := hr.1
          simp only [Row.parts, List.forall_mem_cons, List.map_cons] at hparts ⊢
          exact ⟨ht, hparts⟩
        · exact congrArg (node :: ·) hr.2

theorem joinFrom_logs {level count : Nat} {r : Row Tree}
    (hr : ∀ t ∈ r.parts, t.level < level ∧ t.Proper) :
    Logs (r.joinFrom record level count) (fun r' => ∀ t ∈ r'.parts, t.Proper)
      ((List.range' level count).flatMap fun level =>
        ofLevel level r.nodes) := by
  induction count generalizing level r with
  | zero => exact .pure fun t ht => (hr t ht).2
  | succ count ih =>
      have hrest := hr
      rw [Row.parts, List.forall_mem_cons, List.forall_mem_map] at hrest
      have hfirst :=
        joinLevel_logs (t := r.first)
          ⟨Nat.le_of_lt hrest.1.1, hrest.1.2⟩ hrest.2
      rw [Row.joinFrom, List.range'_succ, List.foldlM_cons, List.flatMap_cons]
      refine hfirst.bind fun r' hr' => ?_
      have hlower : ∀ t ∈ r'.parts, t.level < level + 1 ∧
          t.Proper := fun t ht =>
        ⟨Nat.lt_succ_of_le (hr'.1 t ht).1, (hr'.1 t ht).2⟩
      have hlater := ih hlower
      have hsame :
          ((List.range' (level + 1) count).flatMap fun level =>
            ofLevel level r'.nodes) =
          (List.range' (level + 1) count).flatMap fun level =>
            ofLevel level r.nodes := by
        rw [List.flatMap_def, List.flatMap_def]
        congr 1
        apply List.map_congr_left
        intro later hlater
        have hgt := (List.mem_range'_1.1 hlater).1
        rw [hr'.2, ofLevel_notOfLevel (by omega), Row.nodes]
      rw [hsame] at hlater
      exact hlater

def Row.order {α : Type} (r : Row (Factor α)) : List Node :=
  (r.parts.flatMap fun f => f.suffixes.map Suffix.node) ++
    ((r.parts.flatMap fun f => f.leading.reverse) ++
      (List.range' 3 12).flatMap fun level => ofLevel level r.nodes)

structure Factor.Fresh (f : Factor Tree) : Prop where
  head : f.head.Within 0
  names : ∀ node name dot, .access node name dot ∈ f.suffixes → name.Within 0

theorem Factor.chain_logs {f : Factor Tree} (h : f.Fresh) :
    Logs (f.chain record) (fun s => s.operand.Within 1 ∧ s.leading = f.leading)
      (f.suffixes.map Suffix.node) :=
  (suffixes_logs ⟨Nat.le_trans h.head.1 (Nat.zero_le 1), h.head.2⟩ h.names).map
    fun _ ht => ⟨ht, rfl⟩

theorem Signed.unsign_logs {s : Signed Tree} (h : s.operand.Within 1) :
    Logs (s.unsign record) (fun t => t.Within 2 ∧ () = ()) s.leading.reverse :=
  (leading_logs ⟨Nat.le_trans h.1 (by decide), h.2⟩).mono fun _ ht => ⟨ht, rfl⟩

theorem Row.evaluate_logs {r : Row (Factor Tree)} (h : ∀ f ∈ r.parts, f.Fresh) :
    Logs (r.evaluate record) Tree.Proper r.order := by
  refine (Row.mapM_logs Factor.leading Signed.leading
    (fun f => Factor.chain_logs) h).bind fun signed hsigned => ?_
  have hsigns : (r.parts.flatMap fun f => f.leading.reverse) =
      signed.parts.flatMap fun s => s.leading.reverse := by
    have hkeys := congrArg (List.flatMap List.reverse) hsigned.2.2
    simpa [List.flatMap_map] using hkeys.symm
  rw [hsigns, ← hsigned.2.1]
  refine (Row.mapM_logs (fun _ => ()) (fun _ => ())
    (fun s => Signed.unsign_logs) hsigned.1).bind fun plain hplain => ?_
  rw [← hplain.2.1, ← List.append_nil (List.flatMap _ _)]
  refine (joinFrom_logs fun t ht => ?_).bind fun whole hwhole => .pure ?_
  · exact ⟨Nat.lt_succ_of_le (hplain.1 t ht).1, (hplain.1 t ht).2⟩
  · exact hwhole whole.first List.mem_cons_self

/-! ## What the steps use -/

/-- The node itself if nothing has been applied to it. -/
def Tree.fresh : Tree → List Node
  | .leaf node => [node]
  | _ => []

def Step.fresh : Step Tree → List Node
  | .leading _ t => t.fresh
  | .joining l _ r => l.fresh ++ r.fresh
  | .trailing t _ => t.fresh

def itemFresh : Item Tree → List Node
  | .operand t => t.fresh
  | .operator _ => []

def itemFlat : Item Tree → List (Item Node)
  | .operand t => t.items
  | .operator op => [.operator op]

namespace Step

variable {s : Step Tree}

theorem fresh_items (s : Step Tree) : s.items.flatMap itemFresh = s.fresh := by
  cases s <;> simp [items, itemFresh, fresh]

theorem fresh_ofStep (s : Step Tree) : (Tree.ofStep s).fresh = [] := by
  cases s <;> rfl

theorem items_ofStep (hfit : s.Fitting) (hmade : ∀ item ∈ s.items, item.Made) :
    (Tree.ofStep s).items = s.items.flatMap itemFlat := by
  have hop : (Item.operator s.operator : Item Tree).Made :=
    hmade _ (by cases s <;> simp [items, operator])
  cases s with
  | leading op t =>
      change op = .make op.node op.fixity at hop
      rw [show op.fixity = .leading from hfit] at hop
      simp [Tree.ofStep, Tree.items, items, itemFlat, ← hop]
  | joining l op r =>
      change op = .make op.node op.fixity at hop
      rw [show op.fixity = .joining from hfit] at hop
      simp [Tree.ofStep, Tree.items, items, itemFlat, ← hop]
  | trailing t op =>
      change op = .make op.node op.fixity at hop
      rw [show op.fixity = .trailing from hfit] at hop
      simp [Tree.ofStep, Tree.items, items, itemFlat, ← hop]

end Step

/-- A tree has the items of the list it was built from, and what the steps have
used is what was fresh in the list and is not fresh any more. -/
structure Accounted (items : List (Item Tree)) (t : Tree)
    (steps : List (Step Tree)) : Prop where
  flat : t.items = items.flatMap itemFlat
  used : (steps.flatMap Step.fresh ++ t.fresh).Perm (items.flatMap itemFresh)

theorem Accounted.step {items : List (Item Tree)} {r : Redex Tree} {t : Tree}
    {steps : List (Step Tree)} (hplace : r.InPlace items)
    (hmade : ∀ item ∈ items, item.Made)
    (h : Accounted (r.plug (.ofStep r.step)) t steps) :
    Accounted items t (r.step :: steps) := by
  have hmade' : ∀ item ∈ r.step.items, item.Made := by
    intro item hitem
    apply hmade
    rw [hplace.split]
    simp [hitem]
  constructor
  · rw [h.flat, hplace.split]
    simp [Redex.plug, itemFlat, Step.items_ofStep hplace.fitting hmade']
  · have hused := h.used.append_left r.step.fresh
    rw [Redex.plug, List.flatMap_append, List.flatMap_cons] at hused
    rw [hplace.split, List.flatMap_append, List.flatMap_append,
      Step.fresh_items, List.flatMap_cons, List.append_assoc]
    refine hused.trans ?_
    simp only [itemFresh, Step.fresh_ofStep, List.nil_append]
    exact List.perm_append_comm_assoc _ _ _

theorem reduceFor_accounted_short {rounds : Nat} {items : List (Item Tree)}
    {log : List (Step Tree)} {t : Tree} (hshort : items.length ≤ 1)
    (h : (reduceFor record rounds items log).1 = .value t) :
    ∃ steps, (reduceFor record rounds items log).2 = log ++ steps ∧
      Accounted items t steps := by
  rw [reduceFor_short rounds 0 hshort] at h ⊢
  match items with
  | [] => cases h
  | [.operand u] =>
      cases h
      exact ⟨[], (List.append_nil log).symm, by simp [itemFlat],
        by simp [itemFresh]⟩
  | [.operator op] => cases h

theorem reduceFor_accounted {rounds : Nat} {items : List (Item Tree)}
    {log : List (Step Tree)} {t : Tree} (hmade : ∀ item ∈ items, item.Made)
    (h : (reduceFor record rounds items log).1 = .value t) :
    ∃ steps, (reduceFor record rounds items log).2 = log ++ steps ∧
      Accounted items t steps := by
  induction rounds generalizing items log with
  | zero =>
      by_cases hlong : 1 < items.length
      · rw [reduceFor_zero hlong] at h
        cases h
      · exact reduceFor_accounted_short (Nat.le_of_not_lt hlong) h
  | succ rounds ih =>
      by_cases hlong : 1 < items.length
      · rw [reduceFor_succ hlong] at h ⊢
        cases hnext : next? items with
        | none =>
            rw [hnext] at h
            cases h
        | some r =>
            have hplace := next?_inPlace hnext
            rw [hnext] at h
            obtain ⟨steps, hlog, haccounted⟩ := ih (hplace.made_plug hmade _) h
            rw [List.append_assoc] at hlog
            exact ⟨r.step :: steps, hlog, haccounted.step hplace hmade⟩
      · exact reduceFor_accounted_short (Nat.le_of_not_lt hlong) h

/-! ## Rows in lists -/

/-- No `::` joins anything, and what stands right after a joining dot is an
operand. -/
def Ordinary {α : Type} : List (Item α) → Prop
  | [] => True
  | .operand _ :: rest => Ordinary rest
  | .operator op :: rest =>
      (op.fixity = .joining → op.symbol ≠ "::" ∧
        (op.symbol = "." → rest.head?.all Item.isOperand = true)) ∧
        Ordinary rest

instance decidableOrdinary {α : Type} :
    (items : List (Item α)) → Decidable (Ordinary items)
  | [] => isTrue trivial
  | .operand _ :: rest => decidableOrdinary rest
  | .operator _ :: rest =>
      have := decidableOrdinary rest
      inferInstanceAs (Decidable (_ ∧ _))

/-- A list of the grammar is a row of factors, or a row without the start of its
first factor. -/
theorem row_of_accepts {α : Type} (items : List (Item α))
    (hmade : ∀ item ∈ items, item.Made) (hordinary : Ordinary items) :
    (accepts true items = true → ∃ r : Row (Factor α),
      items = r.items Factor.items ∧ r.Loose) ∧
      (accepts false items = true → ∃ (suffixes : List (Suffix α))
        (rest : List (Node × Factor α)),
        items = suffixes.flatMap Suffix.items ++ joined Factor.items rest ∧
          ∀ part ∈ rest, 3 ≤ priority part.1.symbol .joining) := by
  -- The halves need one another: after an operand comes what only the second
  -- one speaks of.
  match items with
  | [] => exact ⟨fun h => by simp [accepts] at h,
    fun _ => ⟨[], [], rfl, by simp⟩⟩
  | .operand a :: rest =>
      rw [List.forall_mem_cons] at hmade
      refine ⟨fun h => ?_, fun h => by simp [accepts_operand] at h⟩
      rw [accepts_operand, Bool.true_and] at h
      obtain ⟨suffixes, parts, hrest, hloose⟩ :=
        (row_of_accepts rest hmade.2 hordinary).2 h
      refine ⟨⟨⟨[], a, suffixes⟩, parts⟩, ?_, hloose⟩
      simp [Row.items, Factor.items, operators, hrest]
  | .operator op :: rest =>
      rw [List.forall_mem_cons] at hmade
      obtain ⟨node, fixity, rfl⟩ : ∃ node fixity, op = .make node fixity :=
        ⟨_, _, hmade.1⟩
      cases fixity with
      | leading =>
          refine ⟨fun h => ?_, fun h => ?_⟩
          · rw [accepts_leading _ _ rfl, Bool.true_and] at h
            obtain ⟨⟨⟨nodes, a, suffixes⟩, parts⟩, hrest, hloose⟩ :=
              (row_of_accepts rest hmade.2 hordinary.2).1 h
            exact ⟨⟨⟨node :: nodes, a, suffixes⟩, parts⟩,
              by rw [hrest]; rfl, hloose⟩
          · rw [accepts_leading _ _ rfl] at h
            cases h
      | trailing =>
          refine ⟨fun h => ?_, fun h => ?_⟩
          · rw [accepts_trailing _ _ rfl] at h
            cases h
          · rw [accepts_trailing _ _ rfl, Bool.not_false, Bool.true_and] at h
            obtain ⟨suffixes, parts, hrest, hloose⟩ :=
              (row_of_accepts rest hmade.2 hordinary.2).2 h
            exact ⟨.trailing node :: suffixes, parts,
              by rw [hrest]; rfl, hloose⟩
      | joining =>
          refine ⟨fun h => ?_, fun h => ?_⟩
          · rw [accepts_joining _ _ rfl] at h
            cases h
          rw [accepts_joining _ _ rfl, Bool.not_false, Bool.true_and] at h
          by_cases hdot : node.symbol = "."
          · obtain ⟨a, after, rfl⟩ : ∃ a after, rest = .operand a :: after := by
              rcases rest with _ | ⟨a | op', after⟩
              · cases h
              · exact ⟨a, after, rfl⟩
              · cases (hordinary.1 rfl).2 hdot
            rw [List.forall_mem_cons] at hmade
            rw [accepts_operand, Bool.true_and] at h
            obtain ⟨suffixes, parts, hrest, hloose⟩ :=
              (row_of_accepts after hmade.2.2 hordinary.2).2 h
            exact ⟨.access node a hdot :: suffixes, parts,
              by rw [hrest]; rfl, hloose⟩
          · obtain ⟨⟨first, parts⟩, hrest, hloose⟩ :=
              (row_of_accepts rest hmade.2 hordinary.2).1 h
            refine ⟨[], (node, first) :: parts, ?_, ?_⟩
            · rw [hrest, joined_cons]
              rfl
            · rw [List.forall_mem_cons]
              exact ⟨three_le_priority (hordinary.1 rfl).1 hdot, hloose⟩

/-! ## Other operands -/

section Maps

variable {α α' : Type}

def mapItem (f : α → α') : Item α → Item α'
  | .operand a => .operand (f a)
  | .operator op => .operator op

def Suffix.map (f : α → α') : Suffix α → Suffix α'
  | .trailing node => .trailing node
  | .access node name dot => .access node (f name) dot

def Factor.map (f : α → α') (x : Factor α) : Factor α' :=
  ⟨x.leading, f x.head, x.suffixes.map (Suffix.map f)⟩

def Row.map (f : β → γ) (r : Row β) : Row γ :=
  ⟨f r.first, r.rest.map fun part => (part.1, f part.2)⟩

variable (f : α → α')

theorem Suffix.items_map (x : Suffix α) :
    (x.map f).items = x.items.map (mapItem f) := by
  cases x <;> rfl

theorem Factor.items_map (x : Factor α) :
    (x.map f).items = x.items.map (mapItem f) := by
  simp [items, map, operators, mapItem, List.flatMap_map, List.map_flatMap,
    Suffix.items_map]

theorem Row.items_map (r : Row (Factor α)) :
    (r.map (Factor.map f)).items Factor.items =
      (r.items Factor.items).map (mapItem f) := by
  simp [items, map, joined, mapItem, List.flatMap_map, List.map_flatMap,
    Factor.items_map]

theorem Row.nodes_map (g : β → γ) (r : Row β) : (r.map g).nodes = r.nodes := by
  simp [nodes, map]

theorem Row.parts_map (g : β → γ) (r : Row β) :
    (r.map g).parts = r.parts.map g := by
  simp [parts, map]

theorem Row.order_map (r : Row (Factor α)) :
    (r.map (Factor.map f)).order = r.order := by
  have hnode : ∀ x : Suffix α, (x.map f).node = x.node := by
    intro x
    cases x <;> rfl
  simp [order, nodes_map, parts_map, List.flatMap_map, Factor.map,
    Function.comp_def, hnode]

theorem Row.Loose.map {r : Row β} (h : r.Loose) (g : β → γ) : (r.map g).Loose :=
  h.of_nodes (r.nodes_map g)

theorem accepts_map (due : Bool) (items : List (Item α)) :
    accepts due (items.map (mapItem f)) = accepts due items := by
  induction items generalizing due with
  | nil => rfl
  | cons item rest ih =>
      rw [List.map_cons, accepts, accepts, ih]
      cases item <;> rfl

theorem classify_map (previous : Option (Item α)) (node : Node) :
    classify (previous.map (mapItem f)) node = classify previous node := by
  rcases previous with _ | ⟨a⟩ | ⟨op⟩ <;> rfl

theorem marksFrom_map (operand : Node → α) (nodes : List Node)
    (previous : Option (Item α)) :
    marksFrom (fun node => f (operand node)) (previous.map (mapItem f)) nodes =
      (marksFrom operand previous nodes).map (mapItem f) := by
  induction nodes generalizing previous with
  | nil => rfl
  | cons node rest ih =>
      have hitem : ∀ item : Item α, marksFrom (fun node => f (operand node))
          (some (mapItem f item)) rest =
            (marksFrom operand (some item) rest).map (mapItem f) :=
        fun item => ih (some item)
      by_cases hop : node.kind.isOperator = true
      · simp only [marksFrom, hop, if_true, classify_map, List.map_cons,
          ← hitem, mapItem]
      · simp only [marksFrom, hop, List.map_cons, ← hitem, Bool.false_eq_true,
          if_false, mapItem]

theorem marks_map (nodes : List Node) (operand : Node → α) :
    marks operand nodes = (marks id nodes).map (mapItem operand) :=
  marksFrom_map operand id nodes none

end Maps

theorem wellFormed_marks_of_id {α : Type} {nodes : List Node}
    (operand : Node → α) (h : WellFormed (marks id nodes)) :
    WellFormed (marks operand nodes) := by
  rw [wellFormed_marks] at h ⊢
  rw [marks_map, accepts_map, h]

theorem flat_marks (nodes : List Node) :
    (marks Tree.leaf nodes).flatMap itemFlat = marks id nodes := by
  have hleaf : ∀ item : Item Node, itemFlat (mapItem Tree.leaf item) =
      [item] := by
    intro item
    cases item <;> rfl
  rw [marks_map, List.flatMap_map]
  simp [hleaf]

theorem fresh_marks (nodes : List Node) :
    (marks Tree.leaf nodes).flatMap itemFresh = nodes.filter fun node =>
      !node.kind.isOperator := by
  have hfrom : ∀ previous,
      (marksFrom Tree.leaf previous nodes).flatMap itemFresh =
      nodes.filter fun node => !node.kind.isOperator := by
    induction nodes with
    | nil => exact fun _ => rfl
    | cons node rest ih =>
        intro previous
        rw [marksFrom, List.flatMap_cons, ih]
        by_cases hop : node.kind.isOperator = true
        · simp [hop, itemFresh]
        · simp [hop, itemFresh, Tree.fresh]
  exact hfrom none

theorem fresh_factor (x : Factor Node) : (x.map Tree.leaf).Fresh where
  head := ⟨Nat.le_refl 0, trivial⟩
  names node name dot hmem := by
    obtain ⟨suffix, -, heq⟩ := List.mem_map.1 hmem
    cases suffix with
    | trailing node' => cases heq
    | access node' name' dot' =>
        cases heq
        exact ⟨Nat.le_refl 0, trivial⟩

theorem Tree.fresh_eq_nil {t : Tree} {op : Operator}
    (h : .operator op ∈ t.items) : t.fresh = [] := by
  cases t with
  | leaf node => simp [items] at h
  | leading node t => rfl
  | joining l node r => rfl
  | trailing t node => rfl

theorem operator_mem_marks {nodes : List Node} {node : Node}
    (hnode : node ∈ nodes) (hop : node.kind.isOperator = true) :
    ∃ op, .operator op ∈ marks id nodes := by
  have hfrom : ∀ previous, ∃ op,
      .operator op ∈ marksFrom id previous nodes := by
    induction nodes with
    | nil => simp at hnode
    | cons first rest ih =>
        intro previous
        rcases List.mem_cons.1 hnode with rfl | hrest
        · exact ⟨_,
            by simp only [marksFrom, hop, if_true]; exact List.mem_cons_self⟩
        · obtain ⟨op, hmem⟩ := ih hrest _
          exact ⟨op, List.mem_cons_of_mem _ hmem⟩
  exact hfrom none

/-! ## Main statement -/

/-- The list of nodes is the row `r`, which is reduced in phases; `t` is the
tree of the steps and `steps` are the steps in their order. -/
structure Conventional (nodes : List Node) (r : Row (Factor Node)) (t : Tree)
    (steps : List (Step Tree)) : Prop where
  items : r.items Factor.items = marks id nodes
  loose : r.Loose
  phases : ∀ {α : Type} {m : Type → Type} [Monad m] [LawfulMonad m]
    (operand : Node → α) (apply : Step α → m α), verdict operand apply nodes =
      Verdict.value <$> (r.map (Factor.map operand)).evaluate apply
  engine : ∀ (c : Calls) (node : Node), node.children = nodes →
    c.reduceExpression node =
      (r.map (Factor.map Operand.pending)).evaluate c.reduceStep >>=
        c.operandValue
  recorded : verdict Tree.leaf record nodes [] = (.value t, steps)
  proper : t.Proper
  flat : t.items = marks id nodes
  unique : ∀ u : Tree, u.Proper → u.items = marks id nodes → u = t
  order : steps.map (fun s => s.operator.node) = r.order
  used : (∃ node ∈ nodes, node.kind.isOperator = true) →
    (steps.flatMap Step.fresh).Perm
      (nodes.filter fun node => !node.kind.isOperator)

theorem verdict_eq_reduce {α : Type} {m : Type → Type} [Monad m]
    {operand : Node → α} {apply : Step α → m α} {nodes : List Node}
    (h : WellFormed (marks operand nodes)) :
    verdict operand apply nodes = reduce apply (marks operand nodes) := by
  rcases items_cases operand nodes with hitems | ⟨-, hreject⟩
  · simp only [verdict, hitems]
  · rw [wellFormed_marks.1 h] at hreject
    cases hreject

theorem verdict_accounted {nodes : List Node} {t : Tree}
    {steps : List (Step Tree)} (hform : WellFormed (marks id nodes))
    (h : verdict Tree.leaf record nodes [] = (.value t, steps)) :
    t.items = marks id nodes ∧ (steps.flatMap Step.fresh ++ t.fresh).Perm
      (nodes.filter fun node => !node.kind.isOperator) := by
  rw [verdict_eq_reduce (wellFormed_marks_of_id _ hform), reduce] at h
  have hmade : ∀ item ∈ marks Tree.leaf nodes, item.Made :=
    made_marksFrom Tree.leaf nodes none
  obtain ⟨steps', hlog, haccounted⟩ :=
    reduceFor_accounted hmade (congrArg Prod.fst h)
  rw [h, List.nil_append] at hlog
  rw [← hlog] at haccounted
  exact ⟨haccounted.flat.trans (flat_marks nodes),
    haccounted.used.trans (.of_eq (fresh_marks nodes))⟩

theorem reduction_conventional (nodes : List Node)
    (hform : WellFormed (marks id nodes))
    (hordinary : Ordinary (marks id nodes)) :
    ∃ r t steps, Conventional nodes r t steps := by
  obtain ⟨haccepts, hmade⟩ := wellFormed_iff.1 hform
  obtain ⟨r, hitems, hloose⟩ := (row_of_accepts _ hmade hordinary).1 haccepts
  have hmarks : ∀ {α : Type} (operand : Node → α),
      marks operand nodes =
        (r.map (Factor.map operand)).items Factor.items := by
    intro α operand
    rw [marks_map, hitems, Row.items_map]
  have hphases : ∀ {α : Type} {m : Type → Type} [Monad m] [LawfulMonad m]
      (operand : Node → α) (apply : Step α → m α), verdict operand apply nodes =
        Verdict.value <$> (r.map (Factor.map operand)).evaluate apply := by
    intro α m _ _ operand apply
    rw [verdict_eq_reduce (wellFormed_marks_of_id operand hform),
      hmarks operand, reduce_row (hloose.map _)]
  have hengine : ∀ (c : Calls) (node : Node), node.children = nodes →
      c.reduceExpression node =
        (r.map (Factor.map Operand.pending)).evaluate c.reduceStep >>=
          c.operandValue := by
    intro c node hchildren
    rw [c.reduceExpression_eq, hchildren, hphases, bind_map_left]
  have hfresh : ∀ x ∈ (r.map (Factor.map Tree.leaf)).parts, x.Fresh := by
    rw [Row.parts_map, List.forall_mem_map]
    exact fun x _ => fresh_factor x
  have hlogs := Row.evaluate_logs hfresh []
  have hrecorded : verdict Tree.leaf record nodes [] = _ :=
    congrFun (hphases Tree.leaf record) []
  rw [map_recorded] at hrecorded
  generalize (r.map (Factor.map Tree.leaf)).evaluate record [] =
    run at hlogs hrecorded
  obtain ⟨t, steps⟩ := run
  obtain ⟨hproper, steps', hlog, horder⟩ := hlogs
  rw [List.nil_append] at hlog
  rw [Row.order_map, ← hlog] at horder
  obtain ⟨hflat, hused⟩ := verdict_accounted hform hrecorded
  refine ⟨r, t, steps, hitems.symm, hloose, hphases, hengine, hrecorded,
    hproper, hflat, ?_,
    horder, ?_⟩
  · exact fun u hu huitems => hu.unique hproper (huitems.trans hflat.symm)
  · rintro ⟨node, hnode, hop⟩
    obtain ⟨op, hmem⟩ := operator_mem_marks hnode hop
    rw [← hflat] at hmem
    rwa [Tree.fresh_eq_nil hmem, List.append_nil] at hused

/-- The expression `x . f () = - y = z`. -/
def chainedAssignment : List Node :=
  [⟨.identifier, "x", .dummy, 0, []⟩, ⟨.operator, ".", .dummy, 1, []⟩,
    ⟨.identifier, "f", .dummy, 2, []⟩, ⟨.call, "", .dummy, 3, []⟩,
    ⟨.operator, "=", .dummy, 4, []⟩, ⟨.operator, "-", .dummy, 5, []⟩,
    ⟨.identifier, "y", .dummy, 6, []⟩, ⟨.operator, "=", .dummy, 7, []⟩,
    ⟨.identifier, "z", .dummy, 8, []⟩]

/-- The same expression read as `(x.f() = (-y)) = z`. -/
def chainedAssignmentTree : Tree :=
  .joining
    (.joining
      (.trailing
        (.joining (.leaf ⟨.identifier, "x", .dummy, 0, []⟩)
          ⟨.operator, ".", .dummy, 1, []⟩
          (.leaf ⟨.identifier, "f", .dummy, 2, []⟩))
        ⟨.call, "", .dummy, 3, []⟩)
      ⟨.operator, "=", .dummy, 4, []⟩
      (.leading ⟨.operator, "-", .dummy, 5, []⟩
        (.leaf ⟨.identifier, "y", .dummy, 6, []⟩)))
    ⟨.operator, "=", .dummy, 7, []⟩
    (.leaf ⟨.identifier, "z", .dummy, 8, []⟩)

theorem reduction_conventional_chainedAssignment :
    WellFormed (marks id chainedAssignment) ∧
    Ordinary (marks id chainedAssignment) ∧
      ∃ r steps,
        Conventional chainedAssignment r chainedAssignmentTree steps := by
  have hform : WellFormed (marks id chainedAssignment) :=
    wellFormed_marks.2 (by decide)
  have hordinary : Ordinary (marks id chainedAssignment) := by decide
  obtain ⟨r, t, steps, h⟩ :=
    reduction_conventional chainedAssignment hform hordinary
  have hproper : chainedAssignmentTree.Proper := by
    simp [chainedAssignmentTree, Tree.Proper, Tree.level, priority, Node.symbol]
  have htree : chainedAssignmentTree = t := h.unique _ hproper rfl
  exact ⟨hform, hordinary, r, steps, htree ▸ h⟩

end ArenaScript.Reduction
