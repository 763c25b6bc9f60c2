import LiteDbModel.Conds
import LiteDbModel.Lib.SqlCond

/-!
# The WHERE clause of `find`

`find` joins the texts of its conditions by `AND` and adds the model's
`FIND_FILTER` in parentheses. Whether a row that the joined text accepts
satisfies each element is a question about the reading of the text.
-/

namespace LiteDb
set_option autoImplicit false
open SqlCond

/-- What the factors of a clause say of a row. -/
abbrev Row := List (Node CondVal) → Option Bool

/-- `_buildSelectSQL`: the record of the conditions, and `FIND_FILTER` added to it. -/
def findWhere (conditions : List CondElem) (findFilter : Option (List CondElem)) : DBConditions :=
  .mk (condsToRecord conditions) .and
    (findFilter.toList.map fun filter => .mk (condsToRecord filter) .and [])

/-! ## Rows that a text accepts -/

def Piece.Reads (p : Piece) (xs : List (Node CondVal)) : Prop := Reading p.sql.toList p.params xs

def Accepts (row : Row) (p : Piece) : Prop := ∃ xs, p.Reads xs ∧ Holds row xs

/-- An empty text adds no WHERE clause. -/
def Accepted (row : Row) (p : Piece) : Prop := p.sql = "" ∨ Accepts row p

mutual
/-- A row satisfies a tuple when it accepts its text, and an `or` by one of its alternatives. -/
def CondElem.Sat (fmt : Formatter) (row : Row) : CondElem → Prop
  | .or conditions => VacuousGroups conditions ∨ SatSome fmt row conditions
  | e => ∀ kv ∈ e.keyValue, Accepts row (own fmt kv)

def SatAll (fmt : Formatter) (row : Row) : List CondElem → Prop
  | [] => True
  | e :: es => e.Sat fmt row ∧ SatAll fmt row es

/-- An alternative with only skipped elements is none. -/
def SatSome (fmt : Formatter) (row : Row) : List (List CondElem) → Prop
  | [] => False
  | group :: groups => (¬ Vacuous group ∧ SatAll fmt row group) ∨ SatSome fmt row groups
end

/-! ## Texts that can be joined -/

/-- A text of its own: literals, comments and brackets closed, a value for each placeholder. -/
def Safe (p : Piece) : Prop :=
  p.sql ≠ "" ∧ ∃ xs, p.Reads xs ∧ isQuery xs = false ∧ Complete xs

/-- Without an `OR` outside brackets. -/
def Tight (p : Piece) : Prop :=
  p.sql ≠ "" ∧ ∃ xs, p.Reads xs ∧ isQuery xs = false ∧ Complete xs ∧ NoOr xs

def CondElem.Tight (fmt : Formatter) : CondElem → Prop
  | .or _ => True
  | e => ∀ kv ∈ e.keyValue, LiteDb.Tight (own fmt kv)

/-- Two elements of one list: unless one is vacuous, neither has a bare `OR`. -/
def CondElem.Joins (fmt : Formatter) (e e' : CondElem) : Prop :=
  e.Vacuous ∨ e'.Vacuous ∨ (e.Tight fmt ∧ e'.Tight fmt)

mutual
def CondElem.Closed (fmt : Formatter) : CondElem → Prop
  | .or conditions => ClosedGroups fmt conditions
  | e => ∀ kv ∈ e.keyValue, Safe (own fmt kv)

def ClosedAll (fmt : Formatter) : List CondElem → Prop
  | [] => True
  | e :: es => e.Closed fmt ∧ (∀ e' ∈ es, e.Joins fmt e') ∧ ClosedAll fmt es

def ClosedGroups (fmt : Formatter) : List (List CondElem) → Prop
  | [] => True
  | group :: groups => ClosedAll fmt group ∧ ClosedGroups fmt groups
end

/-- The lists lose no element, their texts are closed, and none with a bare `OR` is joined. -/
def FindSafe (fmt : Formatter) (conditions : List CondElem) (findFilter : Option (List CondElem)) :
    Prop :=
  (Kept fmt conditions ∧ ClosedAll fmt conditions) ∧
    ∀ filter ∈ findFilter, (Kept fmt filter ∧ ClosedAll fmt filter) ∧
      (Vacuous filter ∨ ∀ e ∈ conditions, e.Vacuous ∨ e.Tight fmt)

theorem Tight.safe {p : Piece} (h : Tight p) : Safe p := by
  obtain ⟨hne, xs, hreads, hquery, hcomplete, -⟩ := h
  exact ⟨hne, xs, hreads, hquery, hcomplete⟩

theorem accepts_iff {row : Row} {p : Piece} {xs : List (Node CondVal)} (h : p.Reads xs) :
    Accepts row p ↔ Holds row xs := by
  constructor
  · rintro ⟨ys, hys, hholds⟩
    obtain rfl := Reading.unique h hys
    exact hholds
  · intro hholds
    exact ⟨xs, h, hholds⟩

theorem accepted_of_ne {row : Row} {p : Piece} (h : p.sql ≠ "") :
    Accepted row p ↔ Accepts row p := or_iff_right h

theorem accepted_blank (row : Row) : Accepted row Piece.blank := Or.inl rfl

/-- The text of two parts joined by a connective. -/
def Piece.joined (w : String) (p q : Piece) : Piece :=
  ⟨p.sql ++ (" " ++ w ++ " ") ++ q.sql, p.params ++ q.params⟩

theorem Piece.joined_reads {w : String}
    (hw : ∀ (vs : List CondVal) (cs : List Char),
      lex .code [] vs (' ' :: (w.toList ++ ' ' :: cs)) =
        (lex .code [] vs cs).map fun ts => flat [word w] ++ ts)
    {p q : Piece} {xs ys : List (Node CondVal)} (hp : p.Reads xs) (hq : q.Reads ys) :
    (p.joined w q).Reads (xs ++ word w :: ys) := by
  have h := Reading.join hw hp hq
  have hspace : " ".toList = [' '] := by decide
  simpa [Piece.Reads, Piece.joined, String.toList_append, hspace] using h

theorem isQuery_join {xs ys : List (Node CondVal)} {w : String} (hx : isQuery xs = false)
    (hw : isQuery [(word w : Node CondVal)] = false) : isQuery (xs ++ word w :: ys) = false := by
  cases xs with
  | nil => exact hw
  | cons x xs => exact hx

theorem joined_tight {p q : Piece} (hp : Tight p) (hq : Tight q) :
    Tight (p.joined "AND" q) ∧
      ∀ row, Accepts row (p.joined "AND" q) ↔ Accepts row p ∧ Accepts row q := by
  obtain ⟨hne, xs, hx, hxq, hxc, hxo⟩ := hp
  obtain ⟨-, ys, hy, hyq, hyc, hyo⟩ := hq
  have hreads := Piece.joined_reads lex_and hx hy
  constructor
  · refine ⟨append_ne_empty_left (append_ne_empty_left hne), _, hreads, isQuery_join hxq (by decide),
      hxc.join hyc (by decide), hxo.join hyo (by decide)⟩
  · intro row
    rw [accepts_iff hreads, accepts_iff hx, accepts_iff hy]
    exact holds_and hxo hxc hyo

theorem joined_or {p q : Piece} (hp : Safe p) (hq : Safe q) :
    Safe (p.joined "OR" q) ∧
      ∀ row, Accepts row (p.joined "OR" q) ↔ Accepts row p ∨ Accepts row q := by
  obtain ⟨hne, xs, hx, hxq, hxc⟩ := hp
  obtain ⟨-, ys, hy, hyq, hyc⟩ := hq
  have hreads := Piece.joined_reads lex_or hx hy
  constructor
  · exact ⟨append_ne_empty_left (append_ne_empty_left hne), _, hreads, isQuery_join hxq (by decide),
      hxc.join hyc (by decide)⟩
  · intro row
    rw [accepts_iff hreads, accepts_iff hx, accepts_iff hy]
    exact holds_or xs ys

theorem Piece.wrap_reads {p : Piece} {xs : List (Node CondVal)} (h : p.Reads xs) :
    p.wrap.Reads [.group .paren xs] := by
  have hopen : "(".toList = ['('] := by decide
  have hclose : ")".toList = [')'] := by decide
  simpa [Piece.Reads, Piece.wrap, String.toList_append, hopen, hclose] using Reading.wrap h

theorem wrap_tight {p : Piece} (hp : Safe p) :
    Tight p.wrap ∧ ∀ row, Accepts row p.wrap ↔ Accepts row p := by
  obtain ⟨-, xs, hx, hxq, -⟩ := hp
  have hreads := Piece.wrap_reads hx
  have hno : NoOr [Node.group .paren xs] := by
    intro x hx
    rw [List.mem_singleton.mp hx]
    rfl
  refine ⟨⟨append_ne_empty (by decide), _, hreads, rfl, rfl, hno⟩, ?_⟩
  intro row
  rw [accepts_iff hreads, accepts_iff hx]
  exact holds_group hxq

theorem group_of_ne {p : Piece} (h : p.sql ≠ "") : p.group = p.wrap := by
  simp [Piece.group, h]

theorem group_blank : Piece.blank.group = Piece.blank := by
  simp [Piece.group, Piece.blank]

/-! ## Joining parts -/

/-- Two parts that a join by `AND` keeps apart. -/
def Apart (p q : Piece) : Prop := p = Piece.blank ∨ q = Piece.blank ∨ (Tight p ∧ Tight q)

theorem joinPieces_blank_cons (sep : String) (ps : List Piece) :
    joinPieces sep (Piece.blank :: ps) = joinPieces sep ps := by
  simp [joinPieces, Piece.blank]

theorem joinPieces_last {sep : String} {p : Piece} (hp : p.sql ≠ "") {ps : List Piece}
    (hps : ∀ q ∈ ps, q = Piece.blank) : joinPieces sep (p :: ps) = p := by
  have h : joinPieces sep ([p] ++ ps) = joinPieces sep [p] := joinPieces_filter_blank hps
  rw [List.singleton_append] at h
  rw [h]
  simp [joinPieces, join, hp]

theorem joinPieces_cons (w : String) {p : Piece} (hp : p.sql ≠ "") {ps : List Piece}
    (hps : (joinPieces (" " ++ w ++ " ") ps).sql ≠ "") :
    joinPieces (" " ++ w ++ " ") (p :: ps) = p.joined w (joinPieces (" " ++ w ++ " ") ps) := by
  simp only [Piece.joined, joinPieces, List.map_cons, List.flatMap_cons] at hps ⊢
  rw [List.filter_cons_of_pos (by simpa using hp)]
  rcases hss : (ps.map Piece.sql).filter (· ≠ "") with _ | ⟨s, ss⟩
  · rw [hss] at hps
    exact absurd rfl hps
  · rfl

/-- A clause is the conjunction of parts that are apart. -/
theorem join_and {ps : List Piece} (hs : ∀ p ∈ ps, p = Piece.blank ∨ Safe p)
    (ha : ps.Pairwise Apart) :
    ((∀ p ∈ ps, p = Piece.blank) ∧ joinPieces " AND " ps = Piece.blank ∨
      Safe (joinPieces " AND " ps) ∧
        ((∀ p ∈ ps, p = Piece.blank ∨ Tight p) → Tight (joinPieces " AND " ps))) ∧
      ∀ row, Accepted row (joinPieces " AND " ps) ↔ ∀ p ∈ ps, Accepted row p := by
  induction ps with
  | nil =>
    refine ⟨Or.inl ⟨by simp, rfl⟩, ?_⟩
    intro row
    simp [Accepted, joinPieces, join]
  | cons p ps ih =>
    obtain ⟨hsp, hsps⟩ := List.forall_mem_cons.mp hs
    obtain ⟨hap, haps⟩ := List.pairwise_cons.mp ha
    obtain ⟨hrest, hacc⟩ := ih hsps haps
    rcases hsp with rfl | hsp
    · rw [joinPieces_blank_cons]
      refine ⟨?_, ?_⟩
      · rcases hrest with ⟨hall, hblank⟩ | ⟨hsafe, htight⟩
        · exact Or.inl ⟨List.forall_mem_cons.mpr ⟨rfl, hall⟩, hblank⟩
        · exact Or.inr ⟨hsafe, fun h => htight fun q hq => h q (List.mem_cons_of_mem _ hq)⟩
      · intro row
        rw [hacc row, List.forall_mem_cons]
        exact (and_iff_right (accepted_blank row)).symm
    · rcases hrest with ⟨hall, -⟩ | ⟨hsafe, htight⟩
      · rw [joinPieces_last hsp.1 hall]
        refine ⟨Or.inr ⟨hsp, fun h => ?_⟩, ?_⟩
        · rcases h p List.mem_cons_self with rfl | h
          · exact absurd rfl hsp.1
          · exact h
        · intro row
          rw [List.forall_mem_cons]
          refine (and_iff_left ?_).symm
          intro q hq
          rw [hall q hq]
          exact accepted_blank row
      · have hsome : ∃ q ∈ ps, q ≠ Piece.blank := by
          by_contra hnone
          push Not at hnone
          exact hsafe.1 (congrArg Piece.sql (joinPieces_blank hnone))
        have htp : Tight p := by
          obtain ⟨q, hq, hne⟩ := hsome
          rcases hap q hq with h | h | h
          · exact absurd (congrArg Piece.sql h) hsp.1
          · exact absurd h hne
          · exact h.1
        have htps : ∀ q ∈ ps, q = Piece.blank ∨ Tight q := by
          intro q hq
          rcases hap q hq with h | h | h
          · exact absurd (congrArg Piece.sql h) hsp.1
          · exact Or.inl h
          · exact Or.inr h.2
        obtain ⟨hj, hjacc⟩ := joined_tight htp (htight htps)
        have hpair : joinPieces " AND " (p :: ps) = p.joined "AND" (joinPieces " AND " ps) :=
          joinPieces_cons "AND" hsp.1 hsafe.1
        rw [hpair]
        refine ⟨Or.inr ⟨hj.safe, fun _ => hj⟩, ?_⟩
        intro row
        rw [List.forall_mem_cons, ← hacc row, accepted_of_ne hj.1, accepted_of_ne hsp.1,
          accepted_of_ne hsafe.1]
        exact hjacc row

/-- The parts in parentheses are the alternatives of the text. -/
theorem join_or {gs : List Piece} (hs : ∀ g ∈ gs, g = Piece.blank ∨ Safe g) :
    ((∀ g ∈ gs, g = Piece.blank) ∧ joinPieces " OR " (gs.map Piece.group) = Piece.blank) ∨
      (¬ ∀ g ∈ gs, g = Piece.blank) ∧ Safe (joinPieces " OR " (gs.map Piece.group)) ∧
        ∀ row, Accepts row (joinPieces " OR " (gs.map Piece.group)) ↔
          ∃ g ∈ gs, g ≠ Piece.blank ∧ Accepts row g := by
  induction gs with
  | nil => exact Or.inl ⟨by simp, rfl⟩
  | cons g gs ih =>
    obtain ⟨hsg, hsgs⟩ := List.forall_mem_cons.mp hs
    rw [List.map_cons]
    rcases hsg with rfl | hsg
    · rw [group_blank, joinPieces_blank_cons]
      rcases ih hsgs with ⟨hall, hblank⟩ | ⟨hnot, hsafe, hacc⟩
      · exact Or.inl ⟨List.forall_mem_cons.mpr ⟨rfl, hall⟩, hblank⟩
      · refine Or.inr ⟨fun h => hnot (List.forall_mem_cons.mp h).2, hsafe, ?_⟩
        intro row
        rw [hacc row]
        simp
    · have hne : g ≠ Piece.blank := fun h => hsg.1 (congrArg Piece.sql h)
      obtain ⟨hw, hwacc⟩ := wrap_tight hsg
      have hnot : ¬ ∀ q ∈ g :: gs, q = Piece.blank := fun h => hne (h g List.mem_cons_self)
      rw [group_of_ne hsg.1]
      rcases ih hsgs with ⟨hall, -⟩ | ⟨-, hsafe, hacc⟩
      · have hgroups : ∀ q ∈ gs.map Piece.group, q = Piece.blank := by
          intro q hq
          obtain ⟨q', hq', rfl⟩ := List.mem_map.mp hq
          rw [hall q' hq', group_blank]
        rw [joinPieces_last hw.1 hgroups]
        refine Or.inr ⟨hnot, hw.safe, ?_⟩
        intro row
        rw [hwacc row, List.exists_mem_cons_iff]
        constructor
        · intro h
          exact Or.inl ⟨hne, h⟩
        · rintro (⟨-, h⟩ | ⟨q, hq, hqne, -⟩)
          · exact h
          · exact absurd (hall q hq) hqne
      · have hpair : joinPieces " OR " (g.wrap :: gs.map Piece.group) =
            g.wrap.joined "OR" (joinPieces " OR " (gs.map Piece.group)) :=
          joinPieces_cons "OR" hw.1 hsafe.1
        rw [hpair]
        obtain ⟨hj, hjacc⟩ := joined_or hw.safe hsafe
        refine Or.inr ⟨hnot, hj, ?_⟩
        intro row
        rw [hjacc row, hwacc row, hacc row, List.exists_mem_cons_iff]
        exact or_congr (and_iff_right hne).symm Iff.rfl

/-! ## Elements and lists -/

/-- A piece stands for a condition: it is blank when there is none, and accepts its rows. -/
def Denotes (vacuous : Prop) (p : Piece) (sat : Row → Prop) : Prop :=
  (vacuous ∧ p = Piece.blank ∨ ¬ vacuous ∧ Safe p) ∧ ∀ row, sat row ↔ Accepted row p

theorem Denotes.blank_or_safe {vacuous : Prop} {p : Piece} {sat : Row → Prop}
    (h : Denotes vacuous p sat) : p = Piece.blank ∨ Safe p := by
  rcases h.1 with h | h
  · exact Or.inl h.2
  · exact Or.inr h.2

theorem Denotes.blank_iff {vacuous : Prop} {p : Piece} {sat : Row → Prop}
    (h : Denotes vacuous p sat) : p = Piece.blank ↔ vacuous := by
  rcases h.1 with h | h
  · exact iff_of_true h.2 h.1
  · exact iff_of_false (fun heq => h.2.1 (congrArg Piece.sql heq)) h.1

theorem Safe.ne_blank {p : Piece} (h : Safe p) : p ≠ Piece.blank :=
  fun heq => h.1 (congrArg Piece.sql heq)

theorem compileOr_eq {gs : List Piece} :
    compileOr gs = (joinPieces " OR " (gs.map Piece.group)).group := rfl

/-- The property that an element sets stands for the element. -/
def CondElem.Stands (fmt : Formatter) (e : CondElem) : Prop :=
  ∀ kv ∈ e.entry, Denotes e.Vacuous (own fmt kv) (fun row => e.Sat fmt row) ∧
    (e.Tight fmt → own fmt kv = Piece.blank ∨ LiteDb.Tight (own fmt kv))

def Stands (fmt : Formatter) (es : List CondElem) : Prop :=
  Denotes (Vacuous es) (compileRecord fmt es) (fun row => SatAll fmt row es)

theorem sat_of_none {fmt : Formatter} {row : Row} {e : CondElem} (h : e.entry = none) :
    e.Vacuous ∧ e.Sat fmt row := by
  cases e with
  | or conditions => cases h
  | _ =>
    refine ⟨h, ?_⟩
    intro kv hkv
    exact absurd (Eq.trans (Eq.symm h) hkv) (by simp)

theorem stands_tuple {fmt : Formatter} {e : CondElem} (he : ∀ conditions, e ≠ .or conditions)
    (hc : e.Closed fmt) : e.Stands fmt := by
  cases e with
  | or conditions => exact absurd rfl (he conditions)
  | _ =>
    intro kv hkv
    have hsafe : Safe (own fmt kv) := hc kv hkv
    refine ⟨⟨Or.inr ⟨?_, hsafe⟩, ?_⟩, fun ht => Or.inr (ht kv hkv)⟩
    · intro hv
      exact absurd (Eq.trans (Eq.symm hv) hkv) (by simp)
    · intro row
      rw [accepted_of_ne hsafe.1]
      constructor
      · intro hs
        exact hs kv hkv
      · intro ha kv' hkv'
        obtain rfl := Option.some.inj (Eq.trans (Eq.symm hkv) hkv')
        exact ha

theorem pairwise_survivors {α : Type} {R : String × α → String × α → Prop}
    {ps : List (String × α)} (h : ps.Pairwise R) : (Props.survivors ps).Pairwise R := by
  refine h.sublist ?_
  clear h
  induction ps with
  | nil => exact List.Sublist.refl []
  | cons p ps ih =>
    simp only [Props.survivors]
    split
    · exact ih.cons p
    · exact ih.cons_cons p

theorem Apart.symm {p q : Piece} (h : Apart p q) : Apart q p := by
  rcases h with h | h | h
  · exact Or.inr (Or.inl h)
  · exact Or.inl h
  · exact Or.inr (Or.inr h.symm)

theorem entry_mem {es : List CondElem} {kv : String × CondVal} (h : kv ∈ entries es) :
    ∃ e ∈ es, e.entry = some kv := by
  induction es with
  | nil => cases h
  | cons e es ih =>
    rcases List.mem_append.mp h with h | h
    · exact ⟨e, List.mem_cons_self, Option.mem_toList.mp h⟩
    · obtain ⟨e', he', heq⟩ := ih h
      exact ⟨e', List.mem_cons_of_mem _ he', heq⟩

theorem entries_apart {fmt : Formatter} {es : List CondElem} (hs : ∀ e ∈ es, e.Stands fmt)
    (hc : ClosedAll fmt es) : (entries es).Pairwise fun p q => Apart (own fmt p) (own fmt q) := by
  induction es with
  | nil => exact List.Pairwise.nil
  | cons e es ih =>
    obtain ⟨hse, hses⟩ := List.forall_mem_cons.mp hs
    obtain ⟨-, hjoins, hrest⟩ := hc
    rcases he : e.entry with _ | kv
    · simpa [entries, he] using ih hses hrest
    · simp only [entries, he, Option.toList_some, List.singleton_append]
      refine List.pairwise_cons.mpr ⟨?_, ih hses hrest⟩
      intro kv' hkv'
      obtain ⟨e', hmem, he'⟩ := entry_mem hkv'
      obtain ⟨hd, ht⟩ := hse kv he
      obtain ⟨hd', ht'⟩ := hses e' hmem kv' he'
      rcases hjoins e' hmem with hv | hv | ⟨hte, hte'⟩
      · exact Or.inl (hd.blank_iff.mpr hv)
      · exact Or.inr (Or.inl (hd'.blank_iff.mpr hv))
      · rcases ht hte with hb | hb
        · exact Or.inl hb
        · rcases ht' hte' with hb' | hb'
          · exact Or.inr (Or.inl hb')
          · exact Or.inr (Or.inr ⟨hb, hb'⟩)

theorem satAll_iff {fmt : Formatter} {row : Row} {es : List CondElem}
    (hs : ∀ e ∈ es, e.Stands fmt) :
    SatAll fmt row es ↔ ∀ kv ∈ entries es, Accepted row (own fmt kv) := by
  induction es with
  | nil => simp [SatAll, entries]
  | cons e es ih =>
    obtain ⟨hse, hses⟩ := List.forall_mem_cons.mp hs
    rw [SatAll, ih hses]
    rcases he : e.entry with _ | kv
    · simp only [entries, he, Option.toList_none, List.nil_append]
      exact and_iff_right (sat_of_none he).2
    · simp only [entries, he, Option.toList_some, List.singleton_append, List.forall_mem_cons]
      exact and_congr_left' ((hse kv he).1.2 row)

theorem vacuous_iff {fmt : Formatter} {es : List CondElem} (hs : ∀ e ∈ es, e.Stands fmt) :
    Vacuous es ↔ ∀ kv ∈ entries es, own fmt kv = Piece.blank := by
  induction es with
  | nil => simp [Vacuous, entries]
  | cons e es ih =>
    obtain ⟨hse, hses⟩ := List.forall_mem_cons.mp hs
    rw [Vacuous, ih hses]
    rcases he : e.entry with _ | kv
    · simp only [entries, he, Option.toList_none, List.nil_append]
      have hnone : e.Vacuous ∧ e.Sat fmt (fun _ => none) := sat_of_none he
      exact and_iff_right hnone.1
    · simp only [entries, he, Option.toList_some, List.singleton_append, List.forall_mem_cons]
      exact and_congr_left' (hse kv he).1.blank_iff.symm

/-- The pieces of the record are those of the list, less some blank ones. -/
theorem record_iff {fmt : Formatter} {es : List CondElem} (hk : Kept fmt es) {P : Piece → Prop}
    (hP : P Piece.blank) :
    (∀ kv ∈ entries es, P (own fmt kv)) ↔ ∀ p ∈ (condsToRecord es).map (own fmt), P p := by
  have hperm : (condsToRecord es).Perm (Props.survivors (entries es)) := Props.ofEntries_perm _
  constructor
  · intro h p hp
    obtain ⟨kv, hkv, rfl⟩ := List.mem_map.mp hp
    exact h kv (Props.survivors_subset _ (hperm.subset hkv))
  · intro h kv hkv
    rcases List.mem_append.mp ((Props.survivors_lost (entries es)).mem_iff.mpr hkv) with hm | hm
    · exact h _ (List.mem_map_of_mem (hperm.mem_iff.mpr hm))
    · rw [lost_blank hk kv hm]
      exact hP

theorem record_safe {fmt : Formatter} {es : List CondElem} (hs : ∀ e ∈ es, e.Stands fmt)
    (hk : Kept fmt es) : ∀ p ∈ (condsToRecord es).map (own fmt), p = Piece.blank ∨ Safe p := by
  apply (record_iff (P := fun p => p = Piece.blank ∨ Safe p) hk (Or.inl rfl)).mp
  intro kv hkv
  obtain ⟨e, he, heq⟩ := entry_mem hkv
  exact (hs e he kv heq).1.blank_or_safe

theorem record_apart {fmt : Formatter} {es : List CondElem} (hs : ∀ e ∈ es, e.Stands fmt)
    (hc : ClosedAll fmt es) : ((condsToRecord es).map (own fmt)).Pairwise Apart := by
  have hperm : (condsToRecord es).Perm (Props.survivors (entries es)) := Props.ofEntries_perm _
  apply List.pairwise_map.mpr
  apply (hperm.pairwise_iff fun h => h.symm).mpr
  exact pairwise_survivors (entries_apart hs hc)

theorem record_accepted {fmt : Formatter} {row : Row} {es : List CondElem}
    (hs : ∀ e ∈ es, e.Stands fmt) (hk : Kept fmt es) :
    (∀ p ∈ (condsToRecord es).map (own fmt), Accepted row p) ↔ SatAll fmt row es :=
  ((satAll_iff hs).trans (record_iff hk (accepted_blank row))).symm

theorem stands_list {fmt : Formatter} {es : List CondElem} (hs : ∀ e ∈ es, e.Stands fmt)
    (hk : Kept fmt es) (hc : ClosedAll fmt es) : Stands fmt es := by
  obtain ⟨hjoin, hacc⟩ := join_and (record_safe hs hk) (record_apart hs hc)
  refine ⟨?_, ?_⟩
  · have hv : Vacuous es ↔ ∀ p ∈ (condsToRecord es).map (own fmt), p = Piece.blank :=
      (vacuous_iff hs).trans (record_iff (P := fun p => p = Piece.blank) hk rfl)
    rcases hjoin with ⟨hb, heq⟩ | ⟨hj, -⟩
    · exact Or.inl ⟨hv.mpr hb, heq⟩
    · exact Or.inr ⟨fun h => hj.ne_blank (joinPieces_blank (hv.mp h)), hj⟩
  · intro row
    exact ((hacc row).trans (record_accepted hs hk)).symm

theorem groups_vacuous_iff {fmt : Formatter} {groups : List (List CondElem)}
    (hs : ∀ g ∈ groups, Stands fmt g) :
    VacuousGroups groups ↔ ∀ p ∈ groups.map (compileRecord fmt), p = Piece.blank := by
  induction groups with
  | nil => simp [VacuousGroups]
  | cons g groups ih =>
    obtain ⟨hg, hgs⟩ := List.forall_mem_cons.mp hs
    rw [VacuousGroups, ih hgs, List.map_cons, List.forall_mem_cons]
    exact and_congr_left' hg.blank_iff.symm

theorem satSome_iff {fmt : Formatter} {row : Row} {groups : List (List CondElem)}
    (hs : ∀ g ∈ groups, Stands fmt g) :
    SatSome fmt row groups ↔
      ∃ p ∈ groups.map (compileRecord fmt), p ≠ Piece.blank ∧ Accepts row p := by
  induction groups with
  | nil => simp [SatSome]
  | cons g groups ih =>
    obtain ⟨hg, hgs⟩ := List.forall_mem_cons.mp hs
    rw [SatSome, ih hgs, List.map_cons, List.exists_mem_cons_iff]
    refine or_congr ?_ Iff.rfl
    rcases hg.1 with ⟨hv, hb⟩ | ⟨hv, hsafe⟩
    · exact iff_of_false (fun h => h.1 hv) (fun h => h.1 hb)
    · have hsat := (hg.2 row).trans (accepted_of_ne hsafe.1)
      exact and_congr (iff_of_true hv hsafe.ne_blank) hsat

theorem stands_or {fmt : Formatter} {groups : List (List CondElem)}
    (hs : ∀ g ∈ groups, Stands fmt g) : (CondElem.or groups).Stands fmt := by
  intro kv hkv
  obtain rfl := Option.some.inj hkv
  rw [own_or, compileOr_eq]
  have hsafe : ∀ p ∈ groups.map (compileRecord fmt), p = Piece.blank ∨ Safe p := by
    intro p hp
    obtain ⟨g, hg, rfl⟩ := List.mem_map.mp hp
    exact (hs g hg).blank_or_safe
  have hv : (CondElem.or groups).Vacuous ↔ _ := groups_vacuous_iff hs
  have hsat : ∀ row, (CondElem.or groups).Sat fmt row ↔
      (CondElem.or groups).Vacuous ∨ _ := fun row => or_congr Iff.rfl (satSome_iff hs)
  rcases join_or hsafe with ⟨hb, heq⟩ | ⟨hnot, hj, hacc⟩
  · rw [heq, group_blank]
    refine ⟨⟨Or.inl ⟨hv.mpr hb, rfl⟩, ?_⟩, fun _ => Or.inl rfl⟩
    intro row
    exact iff_of_true (Or.inl (hv.mpr hb)) (accepted_blank row)
  · obtain ⟨hw, hwacc⟩ := wrap_tight hj
    rw [group_of_ne hj.1]
    refine ⟨⟨Or.inr ⟨fun h => hnot (hv.mp h), hw.safe⟩, ?_⟩, fun _ => Or.inr hw⟩
    intro row
    rw [accepted_of_ne hw.1, hwacc row, hacc row]
    exact (hsat row).trans (or_iff_right fun h => hnot (hv.mp h))

mutual
theorem CondElem.stands {fmt : Formatter} (e : CondElem) (hk : e.Kept fmt) (hc : e.Closed fmt) :
    e.Stands fmt := by
  cases e with
  | or conditions => exact stands_or (stands_groups conditions hk hc)
  | _ => exact stands_tuple (by simp) hc

theorem stands_all {fmt : Formatter} (es : List CondElem) (hk : Kept fmt es)
    (hc : ClosedAll fmt es) : ∀ e ∈ es, e.Stands fmt := by
  cases es with
  | nil => simp
  | cons e es =>
    exact List.forall_mem_cons.mpr ⟨e.stands hk.1 hc.1, stands_all es hk.2.2 hc.2.2⟩

theorem stands_groups {fmt : Formatter} (groups : List (List CondElem))
    (hk : KeptGroups fmt groups) (hc : ClosedGroups fmt groups) :
    ∀ g ∈ groups, Stands fmt g := by
  cases groups with
  | nil => simp
  | cons g groups =>
    exact List.forall_mem_cons.mpr
      ⟨stands_list (stands_all g hk.1 hc.1) hk.1 hc.1, stands_groups groups hk.2 hc.2⟩
end

/-! ## Columns -/

theorem wordChar_inert {c : Char} (h : wordChar c = true) : SqlText.Mode.Inert c ∧ c ≠ '?' := by
  refine ⟨⟨?_, ?_, ?_, ?_, ?_, ?_, ?_⟩, ?_⟩ <;> rintro rfl <;> exact absurd h (by decide)

/-- The words that structure a condition. -/
def structural : List String :=
  ["CASE", "END", "SELECT", "WITH", "VALUES", "TABLE", "AND", "OR", "BETWEEN"]

/-- A bare name. -/
def Name (key : String) : Prop :=
  key ≠ "" ∧ key.toList.all wordChar ∧ structural.all fun w => !keyword w key.toList

instance (key : String) : Decidable (Name key) := inferInstanceAs (Decidable (_ ∧ _))

theorem lex_word {cs : List Char} (h : ∀ c ∈ cs, wordChar c = true) (buf : List Char)
    (vs : List CondVal) (ds : List Char) :
    lex .code buf vs (cs ++ ds) = lex .code (buf ++ cs) vs ds := by
  induction cs generalizing buf with
  | nil => simp
  | cons c cs ih =>
    have hc := h c List.mem_cons_self
    have hstep : SqlText.Mode.step .code c = .code := SqlText.Mode.step_inert .code (wordChar_inert hc).1
    have hlive : SqlText.Mode.live .code = true := rfl
    simp only [List.cons_append, lex, hc, hlive, if_true, hstep]
    rw [ih (fun d hd => h d (List.mem_cons_of_mem c hd)) (buf ++ [c])]
    simp

def columnNodes (key : String) (v : CondVal) : List (Node CondVal) :=
  [.leaf (.word key.toList), .leaf (.sym '='), .leaf (.value v)]

theorem Name.keyword {key : String} (h : Name key) :
    ∀ w ∈ structural, SqlCond.keyword w key.toList = false := by
  intro w hw
  simpa using List.all_eq_true.mp h.2.2 w hw

theorem column_reads {key : String} (h : Name key) (v : CondVal) :
    Piece.Reads ⟨key ++ " = ?", [v]⟩ (columnNodes key v) := by
  have hbuf : key.toList ≠ [] := by simpa using h.1
  have hlex : lexeme key.toList = (.tok (.word key.toList) : Lexeme CondVal) := by
    simp [lexeme, h.keyword "CASE" (by decide), h.keyword "END" (by decide)]
  have hrest : lex .code key.toList [v] " = ?".toList =
      some [.tok (.word key.toList), .tok (.sym '='), .tok (.value v)] := by
    simp [lex, wordChar, SqlText.Mode.live, SqlText.Mode.step, SqlText.Mode.open', punct, flush,
      hbuf, hlex]
  rw [Piece.Reads, Reading, String.toList_append, lex_word (List.all_eq_true.mp h.2.1),
    List.nil_append, hrest]
  rfl

/-- An equality on a column is one factor. -/
theorem column_plain {key : String} (h : Name key) (v : CondVal) {w : String} (hw : w ∈ structural) :
    ∀ x ∈ columnNodes key v, x.isWord w = false := by
  simp [columnNodes, Node.isWord, h.keyword w hw]

/-- It can be joined to anything. -/
theorem tight_column {key : String} (h : Name key) (v : CondVal) :
    Tight ⟨key ++ " = ?", [v]⟩ := by
  refine ⟨append_ne_empty (by decide), columnNodes key v, column_reads h v, ?_, ?_,
    column_plain h v (by decide)⟩
  · simp [columnNodes, isQuery, Node.isWord, h.keyword "SELECT" (by decide),
      h.keyword "WITH" (by decide), h.keyword "VALUES" (by decide), h.keyword "TABLE" (by decide)]
  · simp [columnNodes, Complete, pending, Node.isWord, h.keyword "AND" (by decide),
      h.keyword "BETWEEN" (by decide)]

theorem column_accepts {key : String} (h : Name key) (v : CondVal) (row : Row) :
    Accepts row ⟨key ++ " = ?", [v]⟩ ↔ row (columnNodes key v) = some true := by
  rw [accepts_iff (column_reads h v)]
  exact holds_factor (column_plain h v (by decide)) (column_plain h v (by decide))
    (by simp [columnNodes])

/-! ## The clause of `find` -/

theorem compile_findWhere (fmt : Formatter) (conditions : List CondElem)
    (findFilter : Option (List CondElem)) :
    compile fmt (findWhere conditions findFilter) =
      joinPieces " AND " ((condsToRecord conditions).map (own fmt) ++
        findFilter.toList.map fun filter => (compileRecord fmt filter).group) := by
  have hsep : " " ++ Operator.and.text ++ " " = " AND " := by decide
  have hnested : ∀ filters : List (List CondElem),
      compileNested fmt (filters.map fun filter => .mk (condsToRecord filter) .and []) =
        filters.map fun filter => (compileRecord fmt filter).group := by
    intro filters
    induction filters with
    | nil => rfl
    | cons filter filters ih =>
      simp only [List.map_cons, compileNested, ih, compile_and]
      rfl
  simp only [findWhere, compile, hsep, hnested, compileEntries_eq]
  rfl

/-- `FIND_FILTER` in its parentheses. -/
theorem filter_group {fmt : Formatter} {filter : List CondElem}
    (h : Kept fmt filter ∧ ClosedAll fmt filter) :
    ((compileRecord fmt filter).group = Piece.blank ∨
      ¬ Vacuous filter ∧ LiteDb.Tight (compileRecord fmt filter).group) ∧
      ∀ row, Accepted row (compileRecord fmt filter).group ↔ SatAll fmt row filter := by
  have hs := stands_list (stands_all filter h.1 h.2) h.1 h.2
  have hsat : ∀ row, SatAll fmt row filter ↔ Accepted row (compileRecord fmt filter) := hs.2
  rcases hs.1 with ⟨-, hb⟩ | ⟨hv, hsafe⟩
  · refine ⟨Or.inl (by rw [hb, group_blank]), ?_⟩
    intro row
    rw [hsat row, hb, group_blank]
  · obtain ⟨hw, hwacc⟩ := wrap_tight hsafe
    rw [group_of_ne hsafe.1]
    refine ⟨Or.inr ⟨hv, hw⟩, ?_⟩
    intro row
    rw [hsat row, accepted_of_ne hw.1, hwacc row, accepted_of_ne hsafe.1]

/-- Next to a filter every element of the list is free of a bare `OR`. -/
theorem record_tight {fmt : Formatter} {es : List CondElem} (hs : ∀ e ∈ es, e.Stands fmt)
    (hk : Kept fmt es) (ht : ∀ e ∈ es, e.Vacuous ∨ e.Tight fmt) :
    ∀ p ∈ (condsToRecord es).map (own fmt), p = Piece.blank ∨ LiteDb.Tight p := by
  apply (record_iff (P := fun p => p = Piece.blank ∨ LiteDb.Tight p) hk (Or.inl rfl)).mp
  intro kv hkv
  obtain ⟨e, he, heq⟩ := entry_mem hkv
  obtain ⟨hd, htight⟩ := hs e he kv heq
  rcases ht e he with hv | ht
  · exact Or.inl (hd.blank_iff.mpr hv)
  · exact htight ht

end LiteDb
