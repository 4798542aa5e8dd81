import EventBuckets.Proofs.Folds
import EventBuckets.TextPool

/-!
# Texts are shared, and pruning is exact

Copies are held outside of the pool: by those who asked it for a text, and by those who allocated a
copy themselves and may show it to the pool later.  A copy counts once for each of its holders and
once more if the pool keeps it, and pruning goes by that count alone.

* `TextPool.kept`         the copies that a pool keeps;
* `Lending`               a pool, the copies held outside of it, and those it has handed out so far;
* `Lending.strongCount`   how many hold a copy, with the pool;
* `Lending.Op`            what can be done with a pool and its copies, and `run` for a list of it;
* `Numbered`              no two copies share a number, and the next number is new;
* `Lending.Sound`         what every run keeps: a copy that was handed out and is held is kept;
* `Shares`, `Canonises`, `Prunes`
                          what this says of the copies, of a new copy, and of pruning;
* `run_shares`            all of it holds after every run.
-/

namespace EventBuckets

/-! ## the copies that a pool keeps -/

namespace TextPool
variable {s : TextPool} {x y : SharedText} {text : String}

/-- the copies that are kept, by text -/
def kept (s : TextPool) : List SharedText := s.copies.toList.map fun e => ⟨e.1, e.2⟩

theorem mem_kept : x ∈ s.kept ↔ s.copies[x.text]? = some x.copy := by
  unfold kept
  rw [List.mem_map]
  constructor
  · rintro ⟨⟨text, copy⟩, hmem, rfl⟩
    exact Std.ExtTreeMap.mem_toList_iff_getElem?_eq_some.mp hmem
  · intro h
    exact ⟨(x.text, x.copy), Std.ExtTreeMap.mem_toList_iff_getElem?_eq_some.mpr h, rfl⟩

theorem length_kept (s : TextPool) : s.kept.length = s.size := by
  unfold kept size
  rw [List.length_map, Std.ExtTreeMap.length_toList]

theorem nodup_texts_kept (s : TextPool) : (s.kept.map SharedText.text).Nodup := by
  have h := nodup_keys_toList s.copies
  unfold kept
  rwa [List.map_map]

/-- a text is kept once -/
theorem eq_of_mem_kept (hx : x ∈ s.kept) (hy : y ∈ s.kept) (htext : x.text = y.text) : x = y :=
  List.inj_on_of_nodup_map s.nodup_texts_kept hx hy htext

theorem not_kept_iff : s.copies[text]? = none ↔ ∀ y ∈ s.kept, y.text ≠ text := by
  constructor
  · rintro h y hy rfl
    rw [mem_kept.mp hy] at h
    cases h
  · intro h
    cases hcopy : s.copies[text]? with
    | none => rfl
    | some copy => exact absurd rfl (h ⟨text, copy⟩ (mem_kept.mpr hcopy))

/-! ## what the operations keep -/

/-- a pool gives the copy `x`: it keeps it from now on, and apart from it what it kept before -/
def Gives (s s' : TextPool) (x : SharedText) : Prop := ∀ y, y ∈ s'.kept ↔ y ∈ s.kept ∨ y = x

theorem gives_kept (hx : x ∈ s.kept) : Gives s s x := by
  intro y
  constructor
  · exact Or.inl
  · rintro (hy | rfl)
    · exact hy
    · exact hx

theorem gives_insert (hnew : ∀ y ∈ s.kept, y.text ≠ x.text) (allocated : Nat) :
    Gives s ⟨s.copies.insert x.text x.copy, allocated⟩ x := by
  intro y
  rw [mem_kept]
  show (s.copies.insert x.text x.copy)[y.text]? = some y.copy ↔ _
  rw [Std.ExtTreeMap.getElem?_insert]
  split
  next htext =>
    have htext : x.text = y.text := Std.LawfulEqOrd.compare_eq_iff_eq.mp htext
    constructor
    · intro hcopy
      right
      cases x
      cases y
      cases htext
      cases hcopy
      rfl
    · rintro (hy | rfl)
      · exact absurd htext.symm (hnew y hy)
      · rfl
  next htext =>
    rw [← mem_kept]
    constructor
    · exact Or.inl
    · rintro (hy | rfl)
      · exact hy
      · exact absurd (Std.LawfulEqOrd.compare_eq_iff_eq.mpr rfl) htext

theorem get_of_kept (hx : x ∈ s.kept) : s.get x.text = (x, s) := by
  unfold get
  rw [mem_kept.mp hx]

theorem get_of_new (hnew : ∀ y ∈ s.kept, y.text ≠ text) :
    s.get text =
      (⟨text, s.allocated⟩, ⟨s.copies.insert text s.allocated, s.allocated + 1⟩) := by
  unfold get
  rw [not_kept_iff.mpr hnew]

theorem canonical_of_kept (hy : y ∈ s.kept) (htext : x.text = y.text) :
    s.canonical x = (y, s) := by
  unfold canonical
  rw [htext, mem_kept.mp hy]

theorem canonical_of_new (hnew : ∀ y ∈ s.kept, y.text ≠ x.text) :
    s.canonical x = (x, { s with copies := s.copies.insert x.text x.copy }) := by
  unfold canonical
  rw [not_kept_iff.mpr hnew]

/-- a text is kept or new -/
theorem kept_or_new (s : TextPool) (text : String) :
    (∃ y ∈ s.kept, text = y.text) ∨ ∀ y ∈ s.kept, y.text ≠ text := by
  by_cases h : ∃ y ∈ s.kept, text = y.text
  · exact Or.inl h
  · exact Or.inr fun y hy htext => h ⟨y, hy, htext.symm⟩

theorem gives_get (s : TextPool) (text : String) : Gives s (s.get text).2 (s.get text).1 := by
  rcases s.kept_or_new text with ⟨y, hy, rfl⟩ | hnew
  · rw [get_of_kept hy]
    exact gives_kept hy
  · rw [get_of_new hnew]
    exact gives_insert (x := ⟨text, s.allocated⟩) hnew _

theorem gives_canonical (s : TextPool) (x : SharedText) :
    Gives s (s.canonical x).2 (s.canonical x).1 := by
  rcases s.kept_or_new x.text with ⟨y, hy, htext⟩ | hnew
  · rw [canonical_of_kept hy htext]
    exact gives_kept hy
  · rw [canonical_of_new hnew]
    exact gives_insert hnew _

theorem kept_prune (s : TextPool) (held : SharedText → Bool) :
    (s.prune held).1.kept = s.kept.filter held := by
  unfold kept prune
  rw [Std.ExtTreeMap.toList_filter, List.filter_map]
  rfl

theorem number_prune (s : TextPool) (held : SharedText → Bool) :
    (s.prune held).2 = s.kept.countP fun x => !held x := by
  have hkept : (s.prune held).1.size = s.kept.countP held := by
    rw [← length_kept, kept_prune, List.countP_eq_length_filter]
  have hall := List.length_eq_countP_add_countP (l := s.kept) held
  show s.size - (s.prune held).1.size = _
  rw [hkept, ← length_kept, hall, Nat.add_sub_cancel_left]
  simp only [Bool.not_eq_true, Bool.decide_eq_false]

end TextPool

/-! ## lending -/

/-- a pool with the copies held outside of it, one for each holder, and all it has handed out -/
structure Lending where
  pool : TextPool
  held : List SharedText
  lent : List SharedText

namespace Lending

def empty : Lending := ⟨.empty, [], []⟩

/-- how many hold a copy: its holders outside, and the pool if it keeps it -/
def strongCount (s : Lending) (copy : Nat) : Nat :=
  s.held.countP (fun x => x.copy = copy) + s.pool.kept.countP (fun x => x.copy = copy)

/-- what can be done: only a copy that is held can be shown to the pool, or passed on -/
inductive Op where
  | get (text : String)
  /-- a copy that does not come from the pool -/
  | allocate (text : String)
  | canonical (x : SharedText)
  /-- one more holder of a copy -/
  | pass (x : SharedText)
  /-- one holder less -/
  | drop (x : SharedText)
  | prune

/-- a copy that the pool hands out is held -/
def handOut (s : Lending) (given : SharedText × TextPool) : Lending :=
  ⟨given.2, given.1 :: s.held, given.1 :: s.lent⟩

/-- lets go of the copies that the pool alone holds, and counts them -/
def prune (s : Lending) : Lending × Nat :=
  let (pool, n) := s.pool.prune fun x => 1 < s.strongCount x.copy
  ({ s with pool }, n)

def perform (s : Lending) : Op → Lending
  | .get text => s.handOut (s.pool.get text)
  | .allocate text =>
    { s with pool := (s.pool.allocate text).2, held := (s.pool.allocate text).1 :: s.held }
  | .canonical x => if x ∈ s.held then s.handOut (s.pool.canonical x) else s
  | .pass x => if x ∈ s.held then { s with held := x :: s.held } else s
  | .drop x => { s with held := s.held.erase x }
  | .prune => s.prune.1

/-- performs the operations in turn on a pool that starts empty -/
def run (ops : List Op) : Lending := ops.foldl perform empty

/-- a copy is kept or held, or it was handed out -/
def Knows (s : Lending) (x : SharedText) : Prop := x ∈ s.pool.kept ∨ x ∈ s.held ∨ x ∈ s.lent

end Lending

/-! ## numbers of copies -/

/-- no two copies share a number, and all numbers are below `next` -/
structure Numbered (known : SharedText → Prop) (next : Nat) : Prop where
  below : ∀ x, known x → x.copy < next
  single : ∀ x y, known x → known y → x.copy = y.copy → x = y

namespace Numbered
variable {known known' : SharedText → Prop} {next : Nat} {x : SharedText}

theorem mono (h : Numbered known next) (hle : ∀ x, known' x → known x) : Numbered known' next :=
  ⟨fun x hx => h.below x (hle x hx), fun x y hx hy => h.single x y (hle x hx) (hle y hy)⟩

/-- the next number is new, so one more copy can have it -/
theorem add (h : Numbered known next) (hx : x.copy = next)
    (hle : ∀ y, known' y → known y ∨ y = x) : Numbered known' (next + 1) := by
  have hne : ∀ y, known y → y.copy ≠ x.copy := by
    intro y hy
    have := h.below y hy
    omega
  constructor
  · intro y hy
    rcases hle y hy with hy | rfl
    · exact (h.below y hy).trans (Nat.lt_succ_self next)
    · omega
  · intro y z hy hz hcopy
    rcases hle y hy with hy | rfl <;> rcases hle z hz with hz | rfl
    · exact h.single y z hy hz hcopy
    · exact absurd hcopy (hne y hy)
    · exact absurd hcopy.symm (hne z hz)
    · rfl

end Numbered

/-! ## each operation keeps lending sound -/

namespace Lending
variable {s : Lending} {x y : SharedText}

/-- a copy that was handed out is kept while it is held, and each copy has a number of its own -/
structure Sound (s : Lending) : Prop where
  kept : ∀ x ∈ s.lent, x ∈ s.held → x ∈ s.pool.kept
  numbered : Numbered s.Knows s.pool.allocated

theorem sound_empty : empty.Sound := by
  refine ⟨fun x hx => absurd hx List.not_mem_nil, ?_, ?_⟩
  · rintro x (hx | hx | hx) <;> cases hx
  · rintro x y (hx | hx | hx) <;> cases hx

/-- what is known after a copy was handed out was known before, that copy apart -/
theorem knows_handOut {given : SharedText × TextPool} (hgives : s.pool.Gives given.2 given.1)
    (hy : (s.handOut given).Knows y) : s.Knows y ∨ y = given.1 := by
  rcases hy with hy | hy | hy
  · exact ((hgives y).mp hy).imp_left Or.inl
  · exact (List.mem_cons.mp hy).symm.imp_left fun hy => Or.inr (Or.inl hy)
  · exact (List.mem_cons.mp hy).symm.imp_left fun hy => Or.inr (Or.inr hy)

theorem Sound.kept_handOut (h : s.Sound) {given : SharedText × TextPool}
    (hgives : s.pool.Gives given.2 given.1) (hlent : x ∈ (s.handOut given).lent)
    (hheld : x ∈ (s.handOut given).held) : x ∈ given.2.kept := by
  rw [hgives]
  rcases List.mem_cons.mp hlent with rfl | hlent
  · exact Or.inr rfl
  · rcases List.mem_cons.mp hheld with rfl | hheld
    · exact Or.inr rfl
    · exact Or.inl (h.kept x hlent hheld)

/-- a copy that was known before needs no number -/
theorem Sound.numbered_handOut (h : s.Sound) {given : SharedText × TextPool}
    (hgives : s.pool.Gives given.2 given.1) (hknown : s.Knows given.1) :
    Numbered (s.handOut given).Knows s.pool.allocated := by
  refine h.numbered.mono fun y hy => ?_
  rcases knows_handOut hgives hy with hy | rfl
  · exact hy
  · exact hknown

theorem Sound.get (h : s.Sound) (text : String) : (s.perform (.get text)).Sound := by
  have hgives := s.pool.gives_get text
  refine ⟨fun x => h.kept_handOut hgives, ?_⟩
  rcases s.pool.kept_or_new text with ⟨y, hy, rfl⟩ | hnew
  · show Numbered (s.handOut (s.pool.get y.text)).Knows (s.pool.get y.text).2.allocated
    rw [TextPool.get_of_kept hy] at hgives ⊢
    exact h.numbered_handOut hgives (Or.inl hy)
  · show Numbered (s.handOut (s.pool.get text)).Knows (s.pool.get text).2.allocated
    rw [TextPool.get_of_new hnew] at hgives ⊢
    exact h.numbered.add rfl fun z hz => knows_handOut hgives hz

theorem Sound.allocate (h : s.Sound) (text : String) : (s.perform (.allocate text)).Sound := by
  constructor
  · intro x hlent hheld
    rcases List.mem_cons.mp hheld with rfl | hheld
    · -- its number is not that of any copy handed out before
      exact absurd (h.numbered.below _ (Or.inr (Or.inr hlent))) (Nat.lt_irrefl _)
    · exact h.kept x hlent hheld
  · refine h.numbered.add (x := ⟨text, s.pool.allocated⟩) rfl fun y hy => ?_
    rcases hy with hy | hy | hy
    · exact Or.inl (Or.inl hy)
    · exact (List.mem_cons.mp hy).symm.imp_left fun hy => Or.inr (Or.inl hy)
    · exact Or.inl (Or.inr (Or.inr hy))

theorem Sound.canonical (h : s.Sound) (x : SharedText) : (s.perform (.canonical x)).Sound := by
  show Sound (if x ∈ s.held then s.handOut (s.pool.canonical x) else s)
  split
  next hx =>
    have hgives := s.pool.gives_canonical x
    refine ⟨fun y => h.kept_handOut hgives, ?_⟩
    -- the copy handed out is one that was kept, or the one that was shown
    rcases s.pool.kept_or_new x.text with ⟨y, hy, htext⟩ | hnew
    · rw [TextPool.canonical_of_kept hy htext] at hgives ⊢
      exact h.numbered_handOut hgives (Or.inl hy)
    · rw [TextPool.canonical_of_new hnew] at hgives ⊢
      exact h.numbered_handOut hgives (Or.inr (Or.inl hx))
  next => exact h

/-- a change of the holders alone, to some of those there are -/
theorem Sound.of_held (h : s.Sound) {held : List SharedText} (hle : ∀ x ∈ held, x ∈ s.held) :
    Sound { s with held } := by
  refine ⟨fun x hlent hheld => h.kept x hlent (hle x hheld), h.numbered.mono fun x hx => ?_⟩
  rcases hx with hx | hx | hx
  · exact Or.inl hx
  · exact Or.inr (Or.inl (hle x hx))
  · exact Or.inr (Or.inr hx)

theorem Sound.pass (h : s.Sound) (x : SharedText) : (s.perform (.pass x)).Sound := by
  show Sound (if x ∈ s.held then { s with held := x :: s.held } else s)
  split
  next hx =>
    refine h.of_held fun y hy => ?_
    rcases List.mem_cons.mp hy with rfl | hy
    · exact hx
    · exact hy
  next => exact h

theorem Sound.drop (h : s.Sound) (x : SharedText) : (s.perform (.drop x)).Sound :=
  h.of_held fun _ hy => List.mem_of_mem_erase hy

/-! ## counts and pruning -/

/-- a copy that the pool keeps is held by one more just if somebody outside holds it -/
theorem Sound.one_lt_strongCount_iff (h : s.Sound) (hx : x ∈ s.pool.kept) :
    1 < s.strongCount x.copy ↔ x ∈ s.held := by
  have hkept : s.pool.kept.countP (fun y => y.copy = x.copy) = 1 := by
    have hnodup : s.pool.kept.Nodup := s.pool.nodup_texts_kept.of_map
    rw [← List.count_eq_one_of_mem hnodup hx, List.count]
    refine List.countP_congr fun y hy => ?_
    rw [decide_eq_true_iff, beq_iff_eq]
    constructor
    · exact h.numbered.single y x (Or.inl hy) (Or.inl hx)
    · exact congrArg SharedText.copy
  have hheld : 0 < s.held.countP (fun y => y.copy = x.copy) ↔ x ∈ s.held := by
    rw [List.countP_pos_iff]
    constructor
    · rintro ⟨y, hy, hcopy⟩
      rwa [← h.numbered.single y x (Or.inr (Or.inl hy)) (Or.inl hx) (of_decide_eq_true hcopy)]
    · intro hx
      exact ⟨x, hx, decide_eq_true rfl⟩
  rw [← hheld]
  unfold strongCount
  omega

/-- the copies that are kept are those held outside -/
theorem Sound.mem_kept_prune (h : s.Sound) :
    x ∈ s.prune.1.pool.kept ↔ x ∈ s.pool.kept ∧ x ∈ s.held := by
  show x ∈ (s.pool.prune fun x => 1 < s.strongCount x.copy).1.kept ↔ _
  rw [TextPool.kept_prune, List.mem_filter, decide_eq_true_iff]
  exact and_congr_right fun hx => h.one_lt_strongCount_iff hx

theorem Sound.number_prune (h : s.Sound) :
    s.prune.2 = s.pool.kept.countP fun x => x ∉ s.held := by
  show (s.pool.prune fun x => 1 < s.strongCount x.copy).2 = _
  rw [TextPool.number_prune]
  refine List.countP_congr fun x hx => ?_
  rw [Bool.not_eq_true', decide_eq_false_iff_not, h.one_lt_strongCount_iff hx, decide_eq_true_iff]

theorem Sound.prune (h : s.Sound) : s.prune.1.Sound := by
  refine ⟨fun x hlent hheld => ?_, h.numbered.mono fun x hx => ?_⟩
  · exact h.mem_kept_prune.mpr ⟨h.kept x hlent hheld, hheld⟩
  · rcases hx with hx | hx | hx
    · exact Or.inl (h.mem_kept_prune.mp hx).1
    · exact Or.inr (Or.inl hx)
    · exact Or.inr (Or.inr hx)

/-! ## every run keeps it sound -/

theorem Sound.perform (h : s.Sound) (op : Op) : (s.perform op).Sound := by
  cases op with
  | get text => exact h.get text
  | allocate text => exact h.allocate text
  | canonical x => exact h.canonical x
  | pass x => exact h.pass x
  | drop x => exact h.drop x
  | prune => exact h.prune

theorem sound_run (ops : List Op) : (run ops).Sound := by
  have go (s : Lending) (h : s.Sound) : (ops.foldl Lending.perform s).Sound := by
    induction ops generalizing s with
    | nil => exact h
    | cons op ops ih => exact ih _ (h.perform op)
  exact go empty sound_empty

/-! ## what sound lending shows -/

/-- no text is kept twice, and a copy that was handed out and is still held is the one that is kept,
so that there is one of each text and the pool hands out no other -/
structure Shares (s : Lending) : Prop where
  distinct : (s.pool.kept.map SharedText.text).Nodup
  kept : ∀ x ∈ s.lent, x ∈ s.held → x ∈ s.pool.kept
  same : ∀ x ∈ s.lent, ∀ y ∈ s.lent, x ∈ s.held → y ∈ s.held → x.text = y.text → x.copy = y.copy
  again : ∀ x ∈ s.lent, x ∈ s.held → (s.pool.get x.text).1 = x
  shown : ∀ x ∈ s.lent, x ∈ s.held → ∀ y, y.text = x.text → (s.pool.canonical y).1 = x

theorem Sound.shares (h : s.Sound) : s.Shares where
  distinct := s.pool.nodup_texts_kept
  kept := h.kept
  same x hx y hy hxheld hyheld htext := by
    have heq := TextPool.eq_of_mem_kept (h.kept x hx hxheld) (h.kept y hy hyheld) htext
    rw [heq]
  again x hx hheld := by rw [TextPool.get_of_kept (h.kept x hx hheld)]
  shown x hx hheld y htext := by rw [TextPool.canonical_of_kept (h.kept x hx hheld) htext]

/-- a new copy of a text is a copy of its own, and it is handed out itself just if no copy of the
text was kept -/
structure Canonises (s : Lending) (text : String) : Prop where
  fresh : ∀ x, s.Knows x → x.copy ≠ (s.pool.allocate text).1.copy
  itself : ((s.pool.allocate text).2.canonical (s.pool.allocate text).1).1 =
    (s.pool.allocate text).1 ↔ ∀ y ∈ s.pool.kept, y.text ≠ text

theorem Sound.canonises (h : s.Sound) (text : String) : s.Canonises text := by
  have hfresh : ∀ x, s.Knows x → x.copy ≠ (s.pool.allocate text).1.copy := fun x hx =>
    Nat.ne_of_lt (h.numbered.below x hx)
  refine ⟨hfresh, ?_⟩
  rcases s.pool.kept_or_new text with ⟨y, hy, htext⟩ | hnew
  · have hother : ((s.pool.allocate text).2.canonical (s.pool.allocate text).1).1 = y := by
      rw [TextPool.canonical_of_kept (s := (s.pool.allocate text).2) hy htext]
    rw [hother]
    refine iff_of_false (fun heq => ?_) fun hnew => hnew y hy htext.symm
    exact hfresh y (Or.inl hy) (congrArg SharedText.copy heq)
  · refine iff_of_true ?_ hnew
    rw [TextPool.canonical_of_new (s := (s.pool.allocate text).2)
      (x := (s.pool.allocate text).1) hnew]

/-- pruning lets go of the kept copies that nobody outside holds, and it says how many -/
structure Prunes (s : Lending) : Prop where
  counted : ∀ x ∈ s.pool.kept, 1 < s.strongCount x.copy ↔ x ∈ s.held
  kept : ∀ x, x ∈ s.prune.1.pool.kept ↔ x ∈ s.pool.kept ∧ x ∈ s.held
  number : s.prune.2 = s.pool.kept.countP fun x => x ∉ s.held

theorem Sound.prunes (h : s.Sound) : s.Prunes :=
  ⟨fun _ => h.one_lt_strongCount_iff, fun _ => h.mem_kept_prune, h.number_prune⟩

/-- after every run texts are shared, a new copy is handed out just if its text was not kept, and
pruning lets go of what nobody holds -/
theorem run_shares (ops : List Op) :
    (run ops).Shares ∧ (∀ text, (run ops).Canonises text) ∧ (run ops).Prunes :=
  ⟨(sound_run ops).shares, (sound_run ops).canonises, (sound_run ops).prunes⟩

/-- once nobody holds the first copy it is pruned, and a copy from elsewhere takes its place -/
example :
    let s := run [.get "a", .allocate "a", .drop ⟨"a", 0⟩]
    s.prune.2 = 1 ∧ (s.prune.1.perform (.canonical ⟨"a", 1⟩)).pool.kept = [⟨"a", 1⟩] := by
  cbv

end Lending

end EventBuckets
