import ArenaScript.Proofs.Expression.Acceptance

/-!
# The order of reductions

A row of factors is reduced in three phases.  First the suffixes of each factor
are applied, from left to right over the whole row; then the leading operators
of each factor, the innermost first; then the joining operators, level by level,
and within a level from left to right.  The reduction, which looks for the
tightest operator that is ready, does exactly this, whatever the effects of the
steps are.
-/

namespace ArenaScript

/-! ## Priorities of joining operators -/

theorem priority_joining_le (symbol : String) :
    priority symbol .joining ≤ 14 := by
  simp only [priority]
  split <;> decide

theorem three_le_priority {symbol : String} (hscope : symbol ≠ "::")
    (hdot : symbol ≠ ".") : 3 ≤ priority symbol .joining := by
  simp only [priority]
  split <;> first | contradiction | decide

namespace Reduction

variable {α β γ : Type}

/-! ## Results of computations -/

structure Yields {m : Type → Type} [Monad m] (P : β → Prop) (x : m β) :
    Prop where
  bind_congr : ∀ {γ : Type} {k k' : β → m γ}, (∀ b, P b → k b = k' b) →
    x >>= k = x >>= k'

namespace Yields

variable {m : Type → Type} [Monad m] {P : β → Prop} {Q : γ → Prop}

theorem any (x : m β) : Yields (fun _ => True) x :=
  ⟨fun hk => congrArg _ (funext fun b => hk b trivial)⟩

theorem mono {P' : β → Prop} {x : m β} (h : Yields P x)
    (himp : ∀ b, P b → P' b) : Yields P' x :=
  ⟨fun hk => h.bind_congr fun b hb => hk b (himp b hb)⟩

variable [LawfulMonad m]

theorem pure {b : β} (h : P b) : Yields P (pure b : m β) := by
  constructor
  intro γ k k' hk
  rw [pure_bind, pure_bind, hk b h]

theorem bind {x : m β} {f : β → m γ} (hx : Yields P x)
    (hf : ∀ b, P b → Yields Q (f b)) : Yields Q (x >>= f) := by
  constructor
  intro δ k k' hk
  rw [bind_assoc, bind_assoc]
  exact hx.bind_congr fun b hb => (hf b hb).bind_congr hk

end Yields

/-! ## Factors -/

/-- What binds tightest: a trailing operator, or a dot and the operand after
it. -/
inductive Suffix (α : Type) where
  | trailing (node : Node)
  | access (node : Node) (name : α) (dot : node.symbol = ".")

def Suffix.items : Suffix α → List (Item α)
  | .trailing node => [.operator (.make node .trailing)]
  | .access node name _ => [.operator (.make node .joining), .operand name]

structure Signed (α : Type) where
  leading : List Node
  operand : α

def Signed.items (s : Signed α) : List (Item α) :=
  operators .leading s.leading ++ [.operand s.operand]

structure Factor (α : Type) where
  leading : List Node
  head : α
  suffixes : List (Suffix α)

def Factor.items (f : Factor α) : List (Item α) :=
  operators .leading f.leading ++ .operand f.head ::
    f.suffixes.flatMap Suffix.items

/-! ## The phases -/

section Programs

variable {m : Type → Type} [Monad m] (apply : Step α → m α)

def Suffix.attach (a : α) : Suffix α → m α
  | .trailing node => apply (.trailing a (.make node .trailing))
  | .access node name _ => apply (.joining a (.make node .joining) name)

def Factor.chain (f : Factor α) : m (Signed α) :=
  Signed.mk f.leading <$> f.suffixes.foldlM (Suffix.attach apply) f.head

def Signed.unsign (s : Signed α) : m α :=
  s.leading.reverse.foldlM (fun a node =>
    apply (.leading (.make node .leading) a)) s.operand

def mapRest (f : β → m γ) : List (Node × β) → m (List (Node × γ))
  | [] => pure []
  | (node, b) :: rest => do
      let c ← f b
      let rest ← mapRest f rest
      pure ((node, c) :: rest)

def Row.mapM (f : β → m γ) (r : Row β) : m (Row γ) := do
  let first ← f r.first
  let rest ← mapRest f r.rest
  pure ⟨first, rest⟩

/-- Applies the joining operators of one level, from left to right; the others
stay. -/
def joinLevel (level : Nat) (a : α) : List (Node × α) → m (Row α)
  | [] => pure ⟨a, []⟩
  | (node, b) :: rest =>
      if priority node.symbol .joining = level then do
        let c ← apply (.joining a (.make node .joining) b)
        joinLevel level c rest
      else do
        let r ← joinLevel level b rest
        pure ⟨a, (node, r.first) :: r.rest⟩

def Row.joinFrom (level count : Nat) (r : Row α) : m (Row α) :=
  (List.range' level count).foldlM
    (fun r level => joinLevel apply level r.first r.rest) r

def Row.evaluate (r : Row (Factor α)) : m α := do
  let signed ← r.mapM (Factor.chain apply)
  let plain ← signed.mapM (Signed.unsign apply)
  let whole ← plain.joinFrom apply 3 12
  pure whole.first

end Programs

/-! ## Which step is next -/

def Loose (low : Nat) (items : List (Item α)) : Prop :=
  ∀ op, .operator op ∈ items → low ≤ op.priority

namespace Loose

variable {low : Nat} {xs ys : List (Item α)}

theorem append (hx : Loose low xs) (hy : Loose low ys) :
    Loose low (xs ++ ys) := by
  intro op hop
  rcases List.mem_append.1 hop with h | h
  · exact hx op h
  · exact hy op h

theorem operand (h : Loose low xs) (a : α) : Loose low (.operand a :: xs) := by
  intro op hop
  rcases List.mem_cons.1 hop with heq | hmem
  · cases heq
  · exact h op hmem

theorem operator {op : Operator} (hop : low ≤ op.priority) (h : Loose low xs) :
    Loose low (.operator op :: xs) := by
  intro other hother
  rcases List.mem_cons.1 hother with heq | hmem
  · cases heq
    exact hop
  · exact h other hmem

theorem nil : Loose low ([] : List (Item α)) := fun _ h => by simp at h

theorem leading (hlow : low ≤ 2) (nodes : List Node) :
    Loose low (operators .leading nodes : List (Item α)) := by
  induction nodes with
  | nil => exact nil
  | cons node nodes ih => exact operator hlow ih

theorem suffixes (list : List (Suffix α)) :
    Loose 1 (list.flatMap Suffix.items) := by
  intro op hop
  obtain ⟨suffix, -, hmem⟩ := List.mem_flatMap.1 hop
  cases suffix with
  | trailing node => simp_all [Suffix.items, Operator.make, priority]
  | access node name dot => simp_all [Suffix.items, Operator.make, priority]

theorem signed (s : Signed α) : Loose 2 s.items :=
  (leading (Nat.le_refl 2) s.leading).append (nil.operand s.operand)

theorem factor (f : Factor α) : Loose 1 f.items :=
  (leading (by omega) f.leading).append ((suffixes f.suffixes).operand f.head)

theorem joined {write : β → List (Item α)} {rest : List (Node × β)}
    (hwrite : ∀ b, Loose low (write b))
    (hrest : ∀ part ∈ rest, low ≤ priority part.1.symbol .joining) :
    Loose low (joined write rest) := by
  induction rest with
  | nil => exact nil
  | cons part rest ih =>
      rw [List.forall_mem_cons] at hrest
      rw [joined_cons]
      exact operator hrest.1 ((hwrite part.2).append (ih hrest.2))

end Loose

theorem redexAt?_priority {before after : List (Item α)} {op : Operator}
    {r : Redex α} (h : redexAt? before op after = some r) :
    r.priority = op.priority := by
  rw [Redex.priority, (redexAt?_eq_some h).1]

theorem tightest_skip {before rest : List (Item α)} {op : Operator}
    {r : Redex α}
    (h : tightest (redexes (.operator op :: before) rest) = some r)
    (hop : r.priority < op.priority ∨ redexAt? before op rest = none) :
    tightest (redexes before (.operator op :: rest)) = some r := by
  rw [redexes]
  cases hready : redexAt? before op rest with
  | none => exact h
  | some x =>
      have hpriority := redexAt?_priority hready
      have hlt : r.priority < x.priority := by
        rcases hop with hop | hnone
        · omega
        · rw [hready] at hnone
          cases hnone
      simp [tightest, h, hlt]

theorem tightest_skip_all {pre before post : List (Item α)} {r : Redex α}
    (hpre : Loose (r.priority + 1) pre)
    (h : tightest (redexes (pre.reverse ++ before) post) = some r) :
    tightest (redexes before (pre ++ post)) = some r := by
  induction pre generalizing before with
  | nil => exact h
  | cons item pre ih =>
      have hrest : tightest (redexes (item :: before) (pre ++ post)) =
          some r := by
        apply ih
        · exact fun op hop => hpre op (List.mem_cons_of_mem item hop)
        · simpa using h
      cases item with
      | operand a => exact hrest
      | operator op =>
          exact tightest_skip hrest (Or.inl (hpre op List.mem_cons_self))

theorem tightest_take {before rest : List (Item α)} {op : Operator}
    {r : Redex α} (h : redexAt? before op rest = some r)
    (hrest : Loose op.priority rest) :
    tightest (redexes before (.operator op :: rest)) = some r := by
  have hpriority := redexAt?_priority h
  simp only [redexes, h, tightest]
  split
  · rename_i other hother
    obtain ⟨pre, post, hsplit, -⟩ := mem_redexes (tightest_mem hother)
    have hlow : op.priority ≤ other.priority := hrest _ (by rw [hsplit]; simp)
    rw [if_neg (by omega)]
  · rfl

theorem next?_append {pre post : List (Item α)} {op : Operator} {r : Redex α}
    (hpre : Loose (op.priority + 1) pre)
    (h : redexAt? pre.reverse op post = some r)
    (hpost : Loose op.priority post) :
    next? (pre ++ .operator op :: post) = some r := by
  apply tightest_skip_all
  · rw [redexAt?_priority h]
    exact hpre
  · rw [List.append_nil]
    exact tightest_take h hpost

/-! ## Steps of a reduction -/

section Equations

variable {m : Type → Type} [Monad m] {apply : Step α → m α}

theorem one_lt_length {items : List (Item α)} {r : Redex α}
    (h : r.InPlace items) : 1 < items.length := by
  rw [h.split]
  cases r.step <;> simp [Step.items] <;> omega

theorem reduceFor_short (n k : Nat) {items : List (Item α)}
    (h : items.length ≤ 1) :
    reduceFor apply n items = reduceFor apply k items := by
  match items with
  | [] => rw [reduceFor, reduceFor]
  | [.operand a] => rw [reduceFor, reduceFor]
  | [.operator op] => rw [reduceFor, reduceFor]

theorem reduceFor_enough {n k : Nat} {items : List (Item α)}
    (hn : items.length ≤ n) (hk : items.length ≤ k) :
    reduceFor apply n items = reduceFor apply k items := by
  induction n generalizing k items with
  | zero => exact reduceFor_short 0 k (by omega)
  | succ n ih =>
      by_cases hlong : 1 < items.length
      · obtain ⟨k, rfl⟩ : ∃ j, k = j + 1 := ⟨k - 1, by omega⟩
        rw [reduceFor_succ hlong, reduceFor_succ hlong]
        cases hnext : next? items with
        | none => rfl
        | some r =>
            dsimp only
            refine congrArg _ (funext fun a => ?_)
            have hshorter := (next?_inPlace hnext).shorter a
            exact ih (by omega) (by omega)
      · exact reduceFor_short _ _ (Nat.le_of_not_lt hlong)

variable (apply) in
theorem reduce_step {items : List (Item α)} {r : Redex α}
    (h : next? items = some r) :
    reduce apply items = apply r.step >>= fun a => reduce apply (r.plug a) := by
  have hplace := next?_inPlace h
  have hlong := one_lt_length hplace
  obtain ⟨n, hn⟩ : ∃ n, items.length = n + 1 := ⟨items.length - 1, by omega⟩
  rw [reduce, hn, reduceFor_succ hlong, h]
  dsimp only
  refine congrArg _ (funext fun a => ?_)
  have hshorter := hplace.shorter a
  exact reduceFor_enough (by omega) (Nat.le_refl _)

theorem reduce_operand (a : α) :
    reduce apply [.operand a] = pure (.value a) := by
  rw [reduce, List.length_singleton, reduceFor]

variable [LawfulMonad m]

variable (apply) in
theorem reduce_suffixes (suffixes : List (Suffix α)) (a : α)
    {pre post : List (Item α)} (hpre : Loose 2 pre) (hpost : Loose 1 post) :
    reduce apply
      (pre ++ .operand a :: (suffixes.flatMap Suffix.items ++ post)) =
      suffixes.foldlM (Suffix.attach apply) a >>= fun b =>
        reduce apply (pre ++ .operand b :: post) := by
  induction suffixes generalizing a with
  | nil => simp
  | cons suffix suffixes ih =>
      have hbefore : Loose 2 (pre ++ [.operand a]) :=
        hpre.append (Loose.nil.operand a)
      have hlater : Loose 1 (suffixes.flatMap Suffix.items ++ post) :=
        (Loose.suffixes suffixes).append hpost
      rw [List.foldlM_cons, bind_assoc]
      cases suffix with
      | trailing node =>
          have hnext :
              next? (pre ++ [.operand a] ++ .operator (.make node .trailing) ::
                (suffixes.flatMap Suffix.items ++ post)) =
                some ⟨pre.reverse, .trailing a (.make node .trailing),
                  suffixes.flatMap Suffix.items ++ post⟩ := by
            apply next?_append hbefore _ hlater
            simpa using redexAt?_trailing rfl
          have hstep := reduce_step apply hnext
          simp only [Redex.plug, List.reverse_reverse, ih] at hstep
          simpa [Suffix.items, Suffix.attach] using hstep
      | access node name dot =>
          have hpriority : (Operator.make node .joining).priority = 1 := by
            simp [Operator.make, dot, priority]
          have hnext :
              next? (pre ++ [.operand a] ++ .operator (.make node .joining) ::
                .operand name :: (suffixes.flatMap Suffix.items ++ post)) =
                some ⟨pre.reverse, .joining a (.make node .joining) name,
                  suffixes.flatMap Suffix.items ++ post⟩ := by
            apply next?_append
            · rw [hpriority]
              exact hbefore
            · simpa using redexAt?_joining rfl
            · rw [hpriority]
              exact hlater.operand name
          have hstep := reduce_step apply hnext
          simp only [Redex.plug, List.reverse_reverse, ih] at hstep
          simpa [Suffix.items, Suffix.attach] using hstep

theorem tightest_skip_leading {nodes : List Node} {before rest : List (Item α)}
    {node : Node} {r : Redex α}
    (h : tightest (redexes ((operators .leading nodes).reverse ++ before)
      (.operator (.make node .leading) :: rest)) = some r) :
    tightest (redexes before
      (operators .leading nodes ++ .operator (.make node .leading) :: rest)) =
        some r := by
  induction nodes generalizing before with
  | nil => exact h
  | cons first nodes ih =>
      apply tightest_skip
      · apply ih
        simpa [operators] using h
      · right
        cases nodes <;> rfl

variable (apply) in
theorem reduce_leading (nodes : List Node) (a : α) {pre post : List (Item α)}
    (hpre : Loose 3 pre) (hpost : Loose 2 post) :
    reduce apply
      (pre ++ (operators .leading nodes.reverse ++ .operand a :: post)) =
      nodes.foldlM (fun a node => apply (.leading (.make node .leading) a)) a
        >>= fun b => reduce apply (pre ++ .operand b :: post) := by
  induction nodes generalizing a with
  | nil => simp [operators]
  | cons node nodes ih =>
      rw [List.foldlM_cons, bind_assoc]
      have hnext : next? (pre ++ (operators .leading nodes.reverse ++
          .operator (.make node .leading) :: .operand a :: post)) =
            some ⟨(operators .leading nodes.reverse).reverse ++ pre.reverse,
              .leading (.make node .leading) a, post⟩ := by
        apply tightest_skip_all
        · exact hpre
        · rw [List.append_nil]
          apply tightest_skip_leading
          apply tightest_take (redexAt?_leading rfl)
          exact hpost.operand a
      have hstep := reduce_step apply hnext
      simp only [Redex.plug, List.reverse_append, List.reverse_reverse,
        List.append_assoc, ih] at hstep
      simpa [operators] using hstep

theorem reduce_joined {write : β → List (Item α)} {write' : γ → List (Item α)}
    {f : β → m γ} {low : Nat}
    (hpart : ∀ b pre post, Loose (low + 1) pre → Loose low post →
      reduce apply (pre ++ (write b ++ post)) =
        f b >>= fun c => reduce apply (pre ++ (write' c ++ post)))
    (hwrite : ∀ b, Loose low (write b))
    (hwrite' : ∀ c, Loose (low + 1) (write' c)) {rest : List (Node × β)}
    (hrest : ∀ part ∈ rest, low + 1 ≤ priority part.1.symbol .joining)
    {pre : List (Item α)} (hpre : Loose (low + 1) pre) :
    reduce apply (pre ++ joined write rest) =
      mapRest f rest >>= fun rest' =>
        reduce apply (pre ++ joined write' rest') := by
  induction rest generalizing pre with
  | nil => simp [mapRest]
  | cons part rest ih =>
      obtain ⟨node, b⟩ := part
      rw [List.forall_mem_cons] at hrest
      have hbefore :
          Loose (low + 1) (pre ++ [.operator (.make node .joining)]) :=
        hpre.append (Loose.nil.operator hrest.1)
      have hlater : Loose low (joined write rest) :=
        Loose.joined hwrite fun part hmem =>
          Nat.le_of_succ_le (hrest.2 part hmem)
      have hfirst := hpart b _ _ hbefore hlater
      have hothers : ∀ c,
          reduce apply (pre ++ [.operator (.make node .joining)] ++
            (write' c ++ joined write rest)) = mapRest f rest >>= fun rest' =>
              reduce apply (pre ++ [.operator (.make node .joining)] ++
                (write' c ++ joined write' rest')) := by
        intro c
        have hrest' := ih hrest.2 (hbefore.append (hwrite' c))
        simpa [List.append_assoc] using hrest'
      simp only [hothers] at hfirst
      simpa [mapRest, joined_cons] using hfirst

theorem reduce_parts {write : β → List (Item α)} {write' : γ → List (Item α)}
    {f : β → m γ} {low : Nat}
    (hpart : ∀ b pre post, Loose (low + 1) pre → Loose low post →
      reduce apply (pre ++ (write b ++ post)) =
        f b >>= fun c => reduce apply (pre ++ (write' c ++ post)))
    (hwrite : ∀ b, Loose low (write b))
    (hwrite' : ∀ c, Loose (low + 1) (write' c)) {r : Row β}
    (hrest : ∀ part ∈ r.rest, low + 1 ≤ priority part.1.symbol .joining) :
    reduce apply (r.items write) = r.mapM f >>= fun r' =>
      reduce apply (r'.items write') := by
  have hlater : Loose low (joined write r.rest) :=
    Loose.joined hwrite fun part hmem => Nat.le_of_succ_le (hrest part hmem)
  have hfirst := hpart r.first [] _ Loose.nil hlater
  have hothers := fun c => reduce_joined hpart hwrite hwrite' hrest (hwrite' c)
  simp only [List.nil_append, hothers] at hfirst
  simpa [Row.mapM, Row.items] using hfirst

theorem mapRest_yields (f : β → m γ) (rest : List (Node × β)) :
    Yields (fun rest' => rest'.map Prod.fst = rest.map Prod.fst)
      (mapRest f rest) := by
  induction rest with
  | nil => exact .pure rfl
  | cons part rest ih =>
      refine .bind (.any (f part.2)) fun c _ =>
        .bind ih fun rest' hrest' => .pure ?_
      simp [hrest']

theorem Row.mapM_yields (f : β → m γ) (r : Row β) :
    Yields (fun r' => r'.rest.map Prod.fst = r.rest.map Prod.fst) (r.mapM f) :=
  .bind (.any (f r.first)) fun _ _ => .bind (mapRest_yields f r.rest)
    fun _ hrest => .pure hrest

/-! ## Levels -/

def bare (a : α) : List (Item α) := [.operand a]

variable (apply) in
theorem reduce_level {level : Nat} {rest : List (Node × α)}
    (hrest : ∀ part ∈ rest, level ≤ priority part.1.symbol .joining) (a : α)
    (pre : List (Item α)) (hpre : Loose (level + 1) pre) :
    reduce apply (pre ++ .operand a :: joined bare rest) =
      joinLevel apply level a rest >>= fun r =>
        reduce apply (pre ++ r.items bare) := by
  -- A looser operator stays, so what follows it is reduced behind a longer
  -- `pre`.
  induction rest generalizing a pre with
  | nil => simp [joinLevel, Row.items, bare]
  | cons part rest ih =>
      obtain ⟨node, b⟩ := part
      rw [List.forall_mem_cons] at hrest
      have hlater : Loose level (joined bare rest) :=
        Loose.joined (fun b => Loose.nil.operand b) hrest.2
      by_cases hlevel : priority node.symbol .joining = level
      · have hpriority : (Operator.make node .joining).priority =
            level := hlevel
        have hnext :
            next? (pre ++ [.operand a] ++ .operator (.make node .joining) ::
              .operand b :: joined bare rest) =
              some ⟨pre.reverse, .joining a (.make node .joining) b,
                joined bare rest⟩ := by
          apply next?_append
          · rw [hpriority]
            exact hpre.append (Loose.nil.operand a)
          · simpa using redexAt?_joining rfl
          · rw [hpriority]
            exact hlater.operand b
        have hstep := reduce_step apply hnext
        simp only [Redex.plug, List.reverse_reverse,
          ih hrest.2 _ pre hpre] at hstep
        simpa [joinLevel, hlevel, joined_cons, bare] using hstep
      · have hbefore :
            Loose (level + 1)
              (pre ++ [.operand a, .operator (.make node .joining)]) := by
          refine hpre.append (Loose.operand (Loose.nil.operator ?_) a)
          exact Nat.lt_of_le_of_ne hrest.1 (Ne.symm hlevel)
        have hothers := ih hrest.2 b _ hbefore
        simpa [joinLevel, hlevel, joined_cons, bare, Row.items] using hothers

theorem joinLevel_yields (level : Nat) (a : α) (rest : List (Node × α)) :
    Yields (fun r => ∀ part ∈ r.rest, priority part.1.symbol .joining ≠ level ∧
      ∃ b, (part.1, b) ∈ rest) (joinLevel apply level a rest) := by
  induction rest generalizing a with
  | nil => exact .pure (by simp)
  | cons part rest ih =>
      obtain ⟨node, b⟩ := part
      rw [joinLevel]
      split
      · refine .bind (.any _) fun c _ => ?_
        refine (ih c).mono fun r hr part hpart => ?_
        obtain ⟨hne, b', hmem⟩ := hr part hpart
        exact ⟨hne, b', List.mem_cons_of_mem _ hmem⟩
      · rename_i hlevel
        refine .bind (ih b) fun r hr => .pure ?_
        rw [List.forall_mem_cons]
        refine ⟨⟨hlevel, b, List.mem_cons_self⟩, fun part hpart => ?_⟩
        obtain ⟨hne, b', hmem⟩ := hr part hpart
        exact ⟨hne, b', List.mem_cons_of_mem _ hmem⟩

theorem reduce_levels {level count : Nat} {r : Row α}
    (hrest : ∀ part ∈ r.rest, level ≤ priority part.1.symbol .joining ∧
      priority part.1.symbol .joining < level + count) :
    reduce apply (r.items bare) =
      r.joinFrom apply level count >>= fun r' => pure (.value r'.first) := by
  induction count generalizing level r with
  | zero =>
      have hnil : r.rest = [] := by
        apply List.eq_nil_iff_forall_not_mem.2
        intro part hpart
        have hbounds := hrest part hpart
        omega
      simp [Row.items, hnil, bare, reduce_operand, Row.joinFrom]
  | succ count ih =>
      have hlevel :=
        reduce_level apply (fun part hpart => (hrest part hpart).1)
          r.first [] .nil
      simp only [List.nil_append] at hlevel
      rw [Row.joinFrom, List.range'_succ, List.foldlM_cons, bind_assoc]
      refine hlevel.trans ((joinLevel_yields level r.first r.rest).bind_congr
        fun r' hr' => ?_)
      apply ih
      intro part hpart
      obtain ⟨hne, b, hmem⟩ := hr' part hpart
      have hbounds := hrest _ hmem
      dsimp only at hbounds
      omega

/-! ## Main equation -/

def Row.Loose (r : Row β) : Prop :=
  ∀ part ∈ r.rest, 3 ≤ priority part.1.symbol .joining

theorem Row.Loose.of_nodes {r : Row β} {r' : Row γ} (h : r.Loose)
    (hnodes : r'.rest.map Prod.fst = r.rest.map Prod.fst) : r'.Loose := by
  intro part hpart
  have hmem : part.1 ∈ r.rest.map Prod.fst := by
    rw [← hnodes]
    exact List.mem_map_of_mem hpart
  obtain ⟨part', hpart', heq⟩ := List.mem_map.1 hmem
  rw [← heq]
  exact h part' hpart'

theorem reduce_factor (f : Factor α) (pre post : List (Item α))
    (hpre : Loose 2 pre) (hpost : Loose 1 post) :
    reduce apply (pre ++ (f.items ++ post)) =
      f.chain apply >>= fun s => reduce apply (pre ++ (s.items ++ post)) := by
  have hbefore := hpre.append (Loose.leading (Nat.le_refl 2) f.leading)
  have hchain := reduce_suffixes apply f.suffixes f.head hbefore hpost
  simpa [Factor.items, Factor.chain, Signed.items] using hchain

theorem reduce_signed (s : Signed α) (pre post : List (Item α))
    (hpre : Loose 3 pre) (hpost : Loose 2 post) :
    reduce apply (pre ++ (s.items ++ post)) =
      s.unsign apply >>= fun a => reduce apply (pre ++ (bare a ++ post)) := by
  have hleading := reduce_leading apply s.leading.reverse s.operand hpre hpost
  simpa [Signed.items, Signed.unsign, bare] using hleading

/-- The reduction does what the three phases say. -/
theorem reduce_row {r : Row (Factor α)} (h : r.Loose) :
    reduce apply (r.items Factor.items) = Verdict.value <$>
      r.evaluate apply := by
  have hchains : reduce apply (r.items Factor.items) =
      r.mapM (Factor.chain apply) >>= fun signed =>
        reduce apply (signed.items Signed.items) :=
    reduce_parts reduce_factor Loose.factor Loose.signed
      fun part hpart => Nat.le_of_succ_le (h part hpart)
  have hleading : ∀ signed : Row (Signed α), signed.Loose →
      reduce apply (signed.items Signed.items) =
        signed.mapM (Signed.unsign apply) >>= fun plain =>
          reduce apply (plain.items bare) :=
    fun signed hsigned => reduce_parts reduce_signed Loose.signed
      (fun a => Loose.nil.operand a) hsigned
  have hlevels : ∀ plain : Row α, plain.Loose →
      reduce apply (plain.items bare) =
        plain.joinFrom apply 3 12 >>= fun whole =>
          pure (.value whole.first) := by
    intro plain hplain
    apply reduce_levels
    intro part hpart
    have hmost := priority_joining_le part.1.symbol
    exact ⟨hplain part hpart, by omega⟩
  simp only [Row.evaluate, map_bind, map_pure]
  rw [hchains]
  refine (r.mapM_yields _).bind_congr fun signed hsigned => ?_
  have hloose := h.of_nodes hsigned
  rw [hleading signed hloose]
  refine (signed.mapM_yields _).bind_congr fun plain hplain => ?_
  exact hlevels plain (hloose.of_nodes hplain)

end Equations

end Reduction

end ArenaScript
