import TalkMachine.Proofs.Machine.Classification

/-!
# The hierarchy of metaclasses

The metaclass of a class inherits from the metaclass of the superclass, and where there is no
superclass from Class (`Machine.Reached.parallel`). This is so however the hierarchy is rearranged, as
long as no metaclass is given a superclass of its own: with a class its metaclass is moved, the
metaclasses of its subclasses still inherit from that, and no other class has the same metaclass.
-/

namespace TalkMachine

namespace Machine

variable {m m' : Machine} {s s' : ObjectMap} {p : ClassPair} {op : Operation}
  {cls superclass : Value} {limit : ℕ}

/-! ### One operation -/

/-- Class is in the table. -/
lemma Classified.exists_classClass {P : Machine → ClassPair → Prop} (h : Classified P m s) :
    ∃ classClass, m.classAt? ClassIndex.classClass = some classClass ∧
      m.className? classClass = some "Class" :=
  h.exists_kernelClass (show (ClassIndex.classClass, "Class") ∈ _ by decide)

/-- All pairs are linked again when a class that is no metaclass has got another superclass. -/
theorem Classified.parallel_redirects (h : Classified IsParallel m s)
    (redirects : m.Redirects cls superclass s m' s') (hordinary : m.isMetaclass cls = false) :
    m'.Paired s' m'.IsParallel := by
  obtain ⟨hclass, metaSuperclass, changed, hmeta, hreparented, rewires⟩ := redirects
  obtain ⟨-, metaclass, hclassOf, rfl⟩ := hreparented.resolve_left fun hcase => by
    rw [hordinary] at hcase
    cases hcase.1
  obtain ⟨q, pair, rfl, -⟩ := h.paired.exists_of_ordinary h.based ⟨hclass, hordinary⟩
  obtain rfl := Except.ok.inj ((pair.classOf_cls h.based).symm.trans hclassOf)
  refine h.paired.rewires rewires fun p pair' hparallel => ?_
  have hne : p.cls ≠ q.metaclass := pair'.cls_ne_metaclass pair h.based
  by_cases hcls : p.cls = q.cls
  · -- The pair itself: both of its superclasses are replaced.
    have hmetaclass : p.metaclass = q.metaclass :=
      Except.ok.inj ((hcls ▸ pair'.classOf_cls h.based).symm.trans (pair.classOf_cls h.based))
    rw [ClassPair.reparented_of_some ((if_neg hne).trans (if_pos hcls)) (if_pos hmetaclass)]
    rcases metaSuperclass_cases hmeta with ⟨hnil, hdefault⟩ | ⟨hsuperclass, hof, -⟩
    · obtain ⟨classClass, hat, -⟩ := h.exists_classClass
      refine .inl ⟨hnil.trans rewires.evolves.nil_eq.symm, ?_⟩
      rw [rewires.classAt?_eq, hdefault, hat]
      rfl
    · exact .inr (rewires.evolves.classOf_eq h.based hsuperclass hof)
  · -- Any other pair is as it was, and its superclass still has the same class.
    rw [ClassPair.reparented_of_none]
    · exact hparallel.keep h.based rewires.evolves
    · rw [if_neg hne, if_neg hcls]
    · rw [if_neg fun heq => hcls (pair'.cls_eq pair heq),
        if_neg (pair.cls_ne_metaclass pair' h.based).symm]

/-- All pairs are linked again after an operation, unless it gives a metaclass another superclass. -/
theorem Classified.parallel_advances (h : Classified IsParallel m s)
    (advances : m.Advances s m' s' op)
    (hordinary : ∀ cls superclass, op = .setSuperclass cls superclass → m.isMetaclass cls = false) :
    m'.Paired s' m'.IsParallel := by
  cases advances with
  | keeps rewires =>
    exact h.paired.rewires rewires fun p _ hparallel => hparallel.keep h.based rewires.evolves
  | redirects redirects => exact h.parallel_redirects redirects (hordinary _ _ rfl)
  | admits admits linked =>
    refine h.paired.admits admits (fun p _ hparallel => hparallel.keep h.based admits.evolves) ?_
    obtain ⟨classClass, hat, -⟩ := h.exists_classClass
    refine linked.imp_left fun ⟨hnil, hdefault⟩ => ⟨hnil.trans admits.evolves.nil_eq.symm, ?_⟩
    rw [hdefault, admits.evolves.classAt?_of hat]
    rfl

/-! ### All operations -/

/-- Whether an operation may be done while the metaclasses stay parallel to the classes: it carries out
no native method, succeeds, and gives no metaclass another superclass. -/
def MayRearrange (m : Machine) (op : Operation) : Prop :=
  m.MayClassify op ∧ ∀ cls superclass, op = .setSuperclass cls superclass → m.isMetaclass cls = false

/-- All pairs are linked again after such an operation. -/
theorem Classified.step_parallel (h : Classified IsParallel m s) (hmay : MayRearrange m op) :
    ∃ s', Classified IsParallel (stateAfter (op.run m)) s' := by
  obtain ⟨s', sheltered', advances⟩ := h.exists_advances hmay.1
  exact ⟨s', h.advances advances sheltered' (h.parallel_advances advances hmay.2)⟩

/-- In a machine that has been reached by such operations, the metaclass of each class that is no
metaclass itself inherits from the class of the superclass, or where there is none from Class. -/
theorem Reached.parallel (hlimit : limit < 2 ^ 64) (reached : Reached MayRearrange limit m)
    (hordinary : m.Ordinary cls) :
    ∃ superclass metaclass metaSuperclass, m.superclass cls = .ok superclass ∧
      m.classOf cls = .ok metaclass ∧ m.superclass metaclass = .ok metaSuperclass ∧
      (superclass ≠ m.nil → m.classOf superclass = .ok metaSuperclass) ∧
      (superclass = m.nil → m.classAt? ClassIndex.classClass = some metaSuperclass ∧
        m.className? metaSuperclass = some "Class") := by
  obtain ⟨s, h⟩ := reached.induction (P := Classified IsParallel) hlimit
    (fun founded => founded.classified fun _ => id) fun h => h.step_parallel
  obtain ⟨p, pair, rfl, hparallel⟩ := h.paired.exists_of_ordinary h.based hordinary
  obtain ⟨hsuperclass, hmetaSuperclass⟩ := pair.superclass_eq h.based
  refine ⟨p.superclass, p.metaclass, p.metaSuperclass, hsuperclass, pair.classOf_cls h.based,
    hmetaSuperclass, fun hne => ?_, fun heq => ?_⟩
  · exact (hparallel.resolve_left fun hnil => hne hnil.1).2
  · obtain ⟨classClass, hat, hname⟩ := h.exists_classClass
    have hclass := (hparallel.resolve_right fun hechoes => ne_nil_of_isClass hechoes.1 heq).2
    obtain rfl := Option.some.inj (hat.symm.trans hclass)
    exact ⟨hat, hname⟩

/-- After String has lost its superclass in a fresh machine, the metaclass of Symbol inherits from that
of its superclass. -/
theorem Reached.parallel_symbol :
    ∃ m string m' symbol superclass metaclass metaSuperclass, (1048576 : ℕ) < 2 ^ 64 ∧
      m.classAt? ClassIndex.string = some string ∧ setSuperclass string m.nil m = .ok () m' ∧
      Reached MayRearrange 1048576 m' ∧ m'.classAt? ClassIndex.symbol = some symbol ∧
      m'.Ordinary symbol ∧ m'.superclass symbol = .ok superclass ∧
      m'.classOf symbol = .ok metaclass ∧ m'.superclass metaclass = .ok metaSuperclass ∧
      (superclass ≠ m'.nil → m'.classOf superclass = .ok metaSuperclass) := by
  have hlimit : (1048576 : ℕ) < 2 ^ 64 := by norm_num
  have hcost : freshCost ≤ 1048576 := by decide +kernel
  obtain ⟨m, hnew, -, building⟩ := exists_new hlimit hcost
  obtain ⟨s, founded, -⟩ := exists_founded_of_new hlimit hnew
  obtain ⟨s₀, stored⟩ := building.stored
  obtain ⟨string, hstring, hordinary⟩ := building.exists_kernelClass
    (show ClassIndex.string < ClassIndex.firstDynamic by decide) (by decide)
  obtain ⟨symbol, hsymbol, hordinary'⟩ := building.exists_kernelClass
    (show ClassIndex.symbol < ClassIndex.firstDynamic by decide) (by decide)
  rw [kernelClass_eq_ok_iff] at hstring hsymbol
  obtain ⟨_, m', hok, -⟩ := affords_setSuperclass stored building.hierarchy hordinary
    (Or.inl rfl : m.MayTake string m.nil) (Nat.zero_le _)
  obtain ⟨s', he, -⟩ := (ensures_setSuperclass founded.based
    (fun value index _ => Scope.builds_building.altersAll value index) string m.nil).of_ok hok
  have reached : Reached MayRearrange 1048576 m' := by
    refine ⟨m, hnew, .single ⟨.setSuperclass string m.nil, ⟨⟨trivial, m', hok⟩, ?_⟩, ?_⟩⟩
    · rintro _ _ ⟨rfl, rfl⟩
      exact hordinary.2
    · rw [Operation.run, hok]
      rfl
  have ordinary : m'.Ordinary symbol := hordinary'.evolves founded.based he
  obtain ⟨superclass, metaclass, metaSuperclass, hsuperclass, hmetaclass, hmeta, hechoes, -⟩ :=
    Reached.parallel hlimit reached ordinary
  exact ⟨m, string, m', symbol, superclass, metaclass, metaSuperclass, hlimit, hstring, hok, reached,
    he.classAt?_of hsymbol, ordinary, hsuperclass, hmetaclass, hmeta, hechoes⟩

end Machine

end TalkMachine
