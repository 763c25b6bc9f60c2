import LiteDbModel.Lib.SqlText
import LiteDbModel.Values

/-!
# `makeSQL` assembly and placeholder rendering

The assembler splits a component's text at every question mark and fills the
gaps; the renderers number the question marks of the assembled text. Both are
compared with the reading of the component by the lexical structure of SQL.
-/

namespace LiteDb
set_option autoImplicit false
open SqlText

mutual
/-- A param slot: a bound value, or what `isMakeSQL` takes for a nested component. -/
inductive SqlParam
  | bound (v : JsVal)
  | nested (node : MakeSQL)

inductive MakeSQL
  | mk (sql : List Char) (params : List SqlParam) (skip : Bool)
end

def MakeSQL.sql : MakeSQL → List Char
  | mk sql _ _ => sql

def MakeSQL.params : MakeSQL → List SqlParam
  | mk _ params _ => params

def MakeSQL.skip : MakeSQL → Bool
  | mk _ _ skip => skip

/-- `isMakeSQL`: an object with a string `sql` and an array `params`. -/
def isMakeSQL : JsVal → Bool
  | .obj ps =>
    match Props.get ps "sql", Props.get ps "params" with
    | some (.str _), some (.arr _) => true
    | _, _ => false
  | _ => false

def skipFlag (ps : List (String × JsVal)) : Bool :=
  match Props.get ps "skip" with
  | some (.bool b) => b
  | _ => false

mutual
/-- A param value as the assembler takes it. -/
def SqlParam.ofValue : JsVal → SqlParam
  | .obj ps =>
    match Props.get ps "sql", nestedParams ps with
    | some (.str sql), some params =>
      .nested (.mk sql.toList params (skipFlag ps))
    | _, _ => .bound (.obj ps)
  | v => .bound v

/-- The `params` array of an object, each element as the assembler takes it. -/
def nestedParams : List (String × JsVal) → Option (List SqlParam)
  | [] => none
  | (k, .arr xs) :: ps => if k = "params" then some (ofValues xs) else nestedParams ps
  | (k, _) :: ps => if k = "params" then none else nestedParams ps

def ofValues : List JsVal → List SqlParam
  | [] => []
  | x :: xs => SqlParam.ofValue x :: ofValues xs
end

structure AssembledSql where
  sql : List Char
  params : List JsVal

/-- `sql.split('?')`: the first chunk and the others. -/
def splitHoles : List Char → List Char × List (List Char)
  | [] => ([], [])
  | c :: cs =>
    let (chunk, chunks) := splitHoles cs
    if c = '?' then ([], chunk :: chunks) else (c :: chunk, chunks)

def mismatchMessage (found expected : Nat) (sql : List Char) : String :=
  "makeSQL placeholder/param mismatch: " ++ toString found ++ " '?' vs " ++ toString expected ++
    " params in " ++ String.ofList (Json.quote (String.ofList sql))

mutual
def assembleMakeSQL : MakeSQL → Except String AssembledSql
  | .mk sql params skip =>
    if skip then .ok ⟨[], []⟩
    else
      let (chunk, chunks) := splitHoles sql
      if chunks.length ≠ params.length then
        .error (mismatchMessage chunks.length params.length sql)
      else
        (spliceParams params chunks).map fun r => ⟨chunk ++ r.sql, r.params⟩

/-- The loop over the params, each followed by the chunk behind its question mark. -/
def spliceParams : List SqlParam → List (List Char) → Except String AssembledSql
  | [], _ => .ok ⟨[], []⟩
  | .nested node :: params, chunks => do
    let inner ← assembleMakeSQL node
    let rest ← spliceParams params chunks.tail
    .ok ⟨inner.sql ++ chunks.headD [] ++ rest.sql, inner.params ++ rest.params⟩
  | .bound v :: params, chunks => do
    let rest ← spliceParams params chunks.tail
    .ok ⟨'?' :: (chunks.headD [] ++ rest.sql), v :: rest.params⟩
end

def composeMakeSQL : List MakeSQL → Except String AssembledSql
  | [] => .ok ⟨[], []⟩
  | node :: nodes => do
    let r ← assembleMakeSQL node
    let rest ← composeMakeSQL nodes
    .ok ⟨r.sql ++ rest.sql, r.params ++ rest.params⟩

/-! ## The renderers -/

/-- The scan of `renderPlaceholders`, with its string flag and its index. -/
def renderFrom (inString : Bool) (index : Nat) : List Char → List Char
  | [] => []
  | c :: cs =>
    if inString then c :: renderFrom (c ≠ '\'') index cs
    else if c = '\'' then c :: renderFrom true index cs
    else if c = '?' then '$' :: (Nat.toDigits 10 (index + 1) ++ renderFrom false (index + 1) cs)
    else c :: renderFrom false index cs

def renderPlaceholders (sql : List Char) (dialect : Dialect) : List Char :=
  if dialect ≠ .postgres then sql else renderFrom false 0 sql

/-- Each `?` replaced by `$` and the next value of a counter. -/
def countHoles (n : Nat) : List Char → List Char
  | [] => []
  | c :: cs =>
    if c = '?' then '$' :: (Nat.toDigits 10 (n + 1) ++ countHoles (n + 1) cs)
    else c :: countHoles n cs

def toDollarPlaceholders (sql : List Char) : List Char := countHoles 0 sql

/-- The PostgreSQL driver's `sql.replace(/\?/g, …)`. -/
def convertPlaceholders (sql : List Char) : List Char := countHoles 0 sql

/-! ## The reading of a component

The reference: question marks are placeholders only where they are live, and
the scanner's mode runs through nested components. -/

/-- The text up to the first live question mark, the mode there, and the rest. -/
def toHole (m : Mode) : List Char → Option (Marked × Mode × List Char)
  | [] => none
  | c :: cs =>
    if c = '?' ∧ m.live = true then some ([], m, cs)
    else (toHole (m.step c) cs).map fun r => ((c, m.live) :: r.1, r.2)

/-- A marked text with the values bound at its live question marks. -/
structure Reading where
  marked : Marked
  params : List JsVal

def Reading.append (a b : Reading) : Reading := ⟨a.marked ++ b.marked, a.params ++ b.params⟩

mutual
/-- Read a component whose live question marks correspond to its params, one to one. -/
def readMakeSQL (m : Mode) : MakeSQL → Option Reading
  | .mk sql params skip => if skip then some ⟨[], []⟩ else readParams m params sql

def readParams (m : Mode) : List SqlParam → List Char → Option Reading
  | [], sql => if holes (mark m sql) = 0 then some ⟨mark m sql, []⟩ else none
  | p :: params, sql =>
    match toHole m sql with
    | none => none
    | some (before, m', sql) =>
      match p with
      | .bound v =>
        (readParams .code params sql).map fun r => ⟨before ++ ('?', true) :: r.marked, v :: r.params⟩
      | .nested node =>
        match readMakeSQL m' node with
        | none => none
        | some inner =>
          (readParams (m'.run inner.marked.text) params sql).map fun r =>
            ⟨before ++ (inner.marked ++ r.marked), inner.params ++ r.params⟩
end

/-! ## What the reading says about the assembly -/

theorem splitHoles_length (cs : List Char) : (splitHoles cs).2.length = cs.count '?' := by
  induction cs with
  | nil => rfl
  | cons c cs ih =>
    by_cases hc : c = '?' <;> simp [splitHoles, hc, ih]

theorem splitHoles_plain {l : List Char} (h : l.count '?' = 0) : splitHoles l = (l, []) := by
  induction l with
  | nil => rfl
  | cons c l ih =>
    have hc : c ≠ '?' := by
      rintro rfl
      simp at h
    have hl : l.count '?' = 0 := by simpa [List.count_cons, hc] using h
    simp [splitHoles, hc, ih hl]

theorem splitHoles_append {l : List Char} (h : l.count '?' = 0) (rest : List Char) :
    splitHoles (l ++ '?' :: rest) = (l, (splitHoles rest).1 :: (splitHoles rest).2) := by
  induction l with
  | nil => rfl
  | cons c l ih =>
    have hc : c ≠ '?' := by
      rintro rfl
      simp at h
    have hl : l.count '?' = 0 := by simpa [List.count_cons, hc] using h
    simp [splitHoles, hc, ih hl]

/-- What `toHole` finds: code without live question marks, then a live one. -/
structure HoleAt (m : Mode) (sql : List Char) (before : Marked) (m' : Mode) (rest : List Char) :
    Prop where
  split : sql = before.text ++ '?' :: rest
  marked : before = mark m before.text
  mode : m' = m.run before.text
  live : m'.live = true
  holes : holes before = 0

theorem toHole_spec {m m' : Mode} {sql rest : List Char} {before : Marked}
    (h : toHole m sql = some (before, m', rest)) : HoleAt m sql before m' rest := by
  induction sql generalizing m before with
  | nil => cases h
  | cons c cs ih =>
    simp only [toHole] at h
    split at h
    · rename_i hc
      cases h
      exact ⟨by rw [hc.1]; rfl, rfl, rfl, hc.2, rfl⟩
    · rename_i hc
      obtain ⟨⟨before', q⟩, hq, heq⟩ := Option.map_eq_some_iff.mp h
      cases heq
      have hs := ih hq
      refine ⟨?_, ?_, hs.mode, hs.live, ?_⟩
      · simpa [Marked.text] using hs.split
      · simpa [Marked.text, mark] using hs.marked
      · simp [hs.holes, hc]

mutual
/-- A reading is the marked text of the component, read from the mode it starts in. -/
theorem readMakeSQL_marked (m : Mode) : (node : MakeSQL) → ∀ r, readMakeSQL m node = some r →
    r.marked = mark m r.marked.text ∧ holes r.marked = r.params.length
  | .mk sql params skip, r, h => by
    simp only [readMakeSQL] at h
    split at h
    · cases h
      exact ⟨rfl, rfl⟩
    · exact readParams_marked m params sql r h

theorem readParams_marked (m : Mode) : (params : List SqlParam) → ∀ sql r,
    readParams m params sql = some r →
    r.marked = mark m r.marked.text ∧ holes r.marked = r.params.length
  | [], sql, r, h => by
    simp only [readParams] at h
    split at h
    · rename_i hz
      cases h
      exact ⟨by rw [text_mark], hz⟩
    · cases h
  | .bound v :: params, sql, r, h => by
    simp only [readParams] at h
    split at h
    · cases h
    · rename_i before m' rest hh
      obtain ⟨r', hr', heq⟩ := Option.map_eq_some_iff.mp h
      obtain ⟨hmark, hholes⟩ := readParams_marked .code params rest r' hr'
      have hs := toHole_spec hh
      have hq : m'.step '?' = .code := Mode.step_plain hs.live (by decide)
      cases heq
      constructor
      · rw [text_append, mark_append, ← hs.marked, ← hs.mode]
        simp only [Marked.text, List.map_cons, mark, hs.live, hq]
        simp only [Marked.text] at hmark
        rw [← hmark]
      · simp [hs.holes, hholes]
  | .nested node :: params, sql, r, h => by
    simp only [readParams] at h
    split at h
    · cases h
    · rename_i before m' rest hh
      split at h
      · cases h
      · rename_i inner hin
        obtain ⟨r', hr', heq⟩ := Option.map_eq_some_iff.mp h
        obtain ⟨hmark, hholes⟩ := readParams_marked _ params rest r' hr'
        obtain ⟨himark, hiholes⟩ := readMakeSQL_marked m' node inner hin
        have hs := toHole_spec hh
        cases heq
        constructor
        · rw [text_append, text_append, mark_append, mark_append, ← hs.marked, ← hs.mode, ← himark,
            ← hmark]
        · simp [hs.holes, hholes, hiholes]
end

mutual
/-- A component assembles to its reading when no question mark of it is dead, and fails otherwise. -/
theorem assemble_of_reading (m : Mode) : (node : MakeSQL) → ∀ r, readMakeSQL m node = some r →
    (deads r.marked = 0 → assembleMakeSQL node = .ok ⟨r.marked.text, r.params⟩) ∧
    (deads r.marked ≠ 0 → ∃ e, assembleMakeSQL node = .error e)
  | .mk sql params skip, r, h => by
    simp only [readMakeSQL] at h
    split at h
    · rename_i hskip
      cases h
      exact ⟨fun _ => by simp [assembleMakeSQL, hskip, Marked.text], fun hd => absurd rfl hd⟩
    · rename_i hskip
      obtain ⟨_, hok, herr⟩ := splice_of_reading m params sql r h
      have hlen := splitHoles_length sql
      constructor
      · intro hd
        obtain ⟨hcount, t, hs, ht⟩ := hok hd
        simp [assembleMakeSQL, hskip, hlen, hcount, hs, Except.map, ht]
      · intro hd
        rcases herr hd with hne | ⟨e, he⟩
        · exact ⟨mismatchMessage (sql.count '?') params.length sql,
            by simp [assembleMakeSQL, hskip, hlen, hne]⟩
        · by_cases hcount : sql.count '?' = params.length
          · exact ⟨e, by simp [assembleMakeSQL, hskip, hlen, hcount, he, Except.map]⟩
          · exact ⟨mismatchMessage (sql.count '?') params.length sql,
              by simp [assembleMakeSQL, hskip, hlen, hcount]⟩

theorem splice_of_reading (m : Mode) : (params : List SqlParam) → ∀ sql r,
    readParams m params sql = some r →
    params.length ≤ sql.count '?' ∧
    (deads r.marked = 0 → sql.count '?' = params.length ∧
      ∃ t, spliceParams params (splitHoles sql).2 = .ok ⟨t, r.params⟩ ∧
        (splitHoles sql).1 ++ t = r.marked.text) ∧
    (deads r.marked ≠ 0 → sql.count '?' ≠ params.length ∨
      ∃ e, spliceParams params (splitHoles sql).2 = .error e)
  | [], sql, r, h => by
    simp only [readParams] at h
    split at h
    · rename_i hz
      cases h
      have hcount := count_text (mark m sql)
      rw [text_mark, hz, Nat.zero_add] at hcount
      refine ⟨Nat.zero_le _, fun hd => ?_, fun hd => Or.inl (by simpa [hcount] using hd)⟩
      rw [hd] at hcount
      exact ⟨hcount, [], rfl, by simp [splitHoles_plain hcount]⟩
    · cases h
  | .bound v :: params, sql, r, h => by
    simp only [readParams] at h
    split at h
    · cases h
    · rename_i before m' rest hh
      obtain ⟨r', hr', heq⟩ := Option.map_eq_some_iff.mp h
      obtain ⟨hle, hok, herr⟩ := splice_of_reading .code params rest r' hr'
      have hs := toHole_spec hh
      have hbefore := count_text before
      have hcount : sql.count '?' = deads before + 1 + rest.count '?' := by
        rw [hs.split, List.count_append, hbefore, hs.holes]
        simp
        omega
      cases heq
      have hdead : deads (before ++ ('?', true) :: r'.marked) = deads before + deads r'.marked := by
        simp [deads]
      rw [hdead]
      refine ⟨by simp only [List.length_cons]; omega, fun hd => ?_, fun hd => ?_⟩
      · have hb : before.text.count '?' = 0 := by rw [hbefore, hs.holes]; omega
        obtain ⟨hc, t, ht, htext⟩ := hok (by omega)
        refine ⟨by simp only [List.length_cons]; omega, '?' :: ((splitHoles rest).1 ++ t), ?_, ?_⟩
        · rw [hs.split, splitHoles_append hb]
          simp [spliceParams, ht, bind, Except.bind]
        · rw [hs.split, splitHoles_append hb, htext]
          simp [Marked.text]
      · by_cases hb : deads before = 0
        · rcases herr (by omega) with hne | ⟨e, he⟩
          · exact Or.inl (by simp only [List.length_cons]; omega)
          · refine Or.inr ⟨e, ?_⟩
            have hb' : before.text.count '?' = 0 := by rw [hbefore, hs.holes]; omega
            rw [hs.split, splitHoles_append hb']
            simp [spliceParams, he, bind, Except.bind]
        · exact Or.inl (by simp only [List.length_cons]; omega)
  | .nested node :: params, sql, r, h => by
    simp only [readParams] at h
    split at h
    · cases h
    · rename_i before m' rest hh
      split at h
      · cases h
      · rename_i inner hin
        obtain ⟨r', hr', heq⟩ := Option.map_eq_some_iff.mp h
        obtain ⟨hle, hok, herr⟩ := splice_of_reading _ params rest r' hr'
        obtain ⟨hiok, hierr⟩ := assemble_of_reading m' node inner hin
        have hs := toHole_spec hh
        have hbefore := count_text before
        have hcount : sql.count '?' = deads before + 1 + rest.count '?' := by
          rw [hs.split, List.count_append, hbefore, hs.holes]
          simp
          omega
        cases heq
        have hdead : deads (before ++ (inner.marked ++ r'.marked)) =
            deads before + deads inner.marked + deads r'.marked := by
          simp [Nat.add_assoc]
        rw [hdead]
        refine ⟨by simp only [List.length_cons]; omega, fun hd => ?_, fun hd => ?_⟩
        · have hb : before.text.count '?' = 0 := by rw [hbefore, hs.holes]; omega
          obtain ⟨hc, t, ht, htext⟩ := hok (by omega)
          refine ⟨by simp only [List.length_cons]; omega,
            inner.marked.text ++ (splitHoles rest).1 ++ t, ?_, ?_⟩
          · rw [hs.split, splitHoles_append hb]
            simp [spliceParams, hiok (by omega), ht, bind, Except.bind]
          · rw [hs.split, splitHoles_append hb, List.append_assoc, htext]
            simp
        · by_cases hb : deads before = 0
          · have hb' : before.text.count '?' = 0 := by rw [hbefore, hs.holes]; omega
            by_cases hi : deads inner.marked = 0
            · rcases herr (by omega) with hne | ⟨e, he⟩
              · exact Or.inl (by simp only [List.length_cons]; omega)
              · refine Or.inr ⟨e, ?_⟩
                rw [hs.split, splitHoles_append hb']
                simp [spliceParams, hiok hi, he, bind, Except.bind]
            · obtain ⟨e, he⟩ := hierr hi
              refine Or.inr ⟨e, ?_⟩
              rw [hs.split, splitHoles_append hb']
              simp [spliceParams, he, bind, Except.bind]
          · exact Or.inl (by simp only [List.length_cons]; omega)
end

/-! ## Bound values -/

theorem nestedParams_eq (ps : List (String × JsVal)) :
    nestedParams ps =
      match Props.get ps "params" with
      | some (.arr xs) => some (ofValues xs)
      | _ => none := by
  induction ps with
  | nil => rfl
  | cons p ps ih =>
    obtain ⟨k, x⟩ := p
    rw [Props.get_cons]
    by_cases hk : k = "params"
    · cases x <;> simp [nestedParams, hk]
    · cases x <;> simp [nestedParams, hk, ih]

theorem ofValue_of_unshaped {v : JsVal} (h : isMakeSQL v = false) : SqlParam.ofValue v = .bound v := by
  cases v with
  | obj ps =>
    have hn := nestedParams_eq ps
    unfold SqlParam.ofValue
    simp only [isMakeSQL] at h
    split
    · rename_i sql params hs hp
      rw [hs] at h
      rw [hp] at hn
      split at hn
      · rename_i xs hx
        rw [hx] at h
        cases h
      · cases hn
    · rfl
  | _ => rfl

theorem isMakeSQL_of_bound {v w : JsVal} (h : SqlParam.ofValue v = .bound w) :
    w = v ∧ isMakeSQL v = false := by
  cases v with
  | obj ps =>
    have hn := nestedParams_eq ps
    unfold SqlParam.ofValue at h
    split at h
    · cases h
    · rename_i hno
      cases h
      refine ⟨rfl, ?_⟩
      simp only [isMakeSQL]
      split
      · rename_i sql xs hs hx
        rw [hx] at hn
        exact absurd hn (hno sql (ofValues xs) hs)
      · rfl
  | _ =>
    cases h
    exact ⟨rfl, rfl⟩

mutual
/-- No value that leaves the assembly as a param has the shape of a component. -/
theorem assemble_params_unshaped : (v : JsVal) → ∀ node r, SqlParam.ofValue v = .nested node →
    assembleMakeSQL node = .ok r → ∀ w ∈ r.params, isMakeSQL w = false
  | .obj ps, node, r, hv, hr => by
    simp only [SqlParam.ofValue] at hv
    split at hv
    · rename_i sql params hs hp
      cases hv
      simp only [assembleMakeSQL] at hr
      split at hr
      · cases hr
        exact fun w hw => absurd hw List.not_mem_nil
      · split at hr
        · cases hr
        · cases hsp : spliceParams params (splitHoles sql.toList).2 with
          | error e =>
            rw [hsp] at hr
            cases hr
          | ok r' =>
            rw [hsp] at hr
            cases hr
            exact nestedParams_unshaped ps params _ r' hp hsp
    · cases hv
  | .undefined, _, _, hv, _ | .null, _, _, hv, _ | .bool _, _, _, hv, _ | .num _, _, _, hv, _
  | .bigint _, _, _, hv, _ | .str _, _, _, hv, _ | .date _, _, _, hv, _ | .buffer _, _, _, hv, _
  | .arr _, _, _, hv, _ => by cases hv

theorem nestedParams_unshaped : (ps : List (String × JsVal)) → ∀ params chunks r,
    nestedParams ps = some params → spliceParams params chunks = .ok r →
    ∀ w ∈ r.params, isMakeSQL w = false
  | [], _, _, _, hp, _ => by cases hp
  | (k, .arr xs) :: ps, params, chunks, r, hp, hr => by
    simp only [nestedParams] at hp
    split at hp
    · cases hp
      exact splice_params_unshaped xs chunks r hr
    · exact nestedParams_unshaped ps params chunks r hp hr
  | (k, .undefined) :: ps, params, chunks, r, hp, hr | (k, .null) :: ps, params, chunks, r, hp, hr
  | (k, .bool _) :: ps, params, chunks, r, hp, hr | (k, .num _) :: ps, params, chunks, r, hp, hr
  | (k, .bigint _) :: ps, params, chunks, r, hp, hr | (k, .str _) :: ps, params, chunks, r, hp, hr
  | (k, .date _) :: ps, params, chunks, r, hp, hr | (k, .buffer _) :: ps, params, chunks, r, hp, hr
  | (k, .obj _) :: ps, params, chunks, r, hp, hr => by
    simp only [nestedParams] at hp
    split at hp
    · cases hp
    · exact nestedParams_unshaped ps params chunks r hp hr

theorem splice_params_unshaped : (xs : List JsVal) → ∀ chunks r,
    spliceParams (ofValues xs) chunks = .ok r → ∀ w ∈ r.params, isMakeSQL w = false
  | [], _, r, hr => by
    cases hr
    exact fun w hw => absurd hw List.not_mem_nil
  | x :: xs, chunks, r, hr => by
    simp only [ofValues] at hr
    cases hx : SqlParam.ofValue x with
    | bound v =>
      obtain ⟨rfl, hun⟩ := isMakeSQL_of_bound hx
      rw [hx] at hr
      cases hrest : spliceParams (ofValues xs) chunks.tail with
      | error e => simp [spliceParams, hrest, bind, Except.bind] at hr
      | ok rest =>
        simp only [spliceParams, hrest, bind, Except.bind, Except.ok.injEq] at hr
        subst hr
        intro w hw
        rcases List.mem_cons.mp hw with rfl | hw
        · exact hun
        · exact splice_params_unshaped xs chunks.tail rest hrest w hw
    | nested node =>
      rw [hx] at hr
      cases hin : assembleMakeSQL node with
      | error e => simp [spliceParams, hin, bind, Except.bind] at hr
      | ok inner =>
        cases hrest : spliceParams (ofValues xs) chunks.tail with
        | error e => simp [spliceParams, hin, hrest, bind, Except.bind] at hr
        | ok rest =>
          simp only [spliceParams, hin, hrest, bind, Except.bind, Except.ok.injEq] at hr
          subst hr
          intro w hw
          rcases List.mem_append.mp hw with hw | hw
          · exact assemble_params_unshaped x node inner hx hin w hw
          · exact splice_params_unshaped xs chunks.tail rest hrest w hw
end

theorem spliceParams_bound (vs : List JsVal) (sql : List Char)
    (h : sql.count '?' = vs.length) :
    ∃ t, spliceParams (vs.map SqlParam.bound) (splitHoles sql).2 = .ok ⟨t, vs⟩ ∧
      (splitHoles sql).1 ++ t = sql := by
  induction sql generalizing vs with
  | nil =>
    obtain rfl := List.eq_nil_of_length_eq_zero h.symm
    exact ⟨[], rfl, rfl⟩
  | cons c cs ih =>
    by_cases hc : c = '?'
    · subst hc
      cases vs with
      | nil => simp at h
      | cons v vs =>
        obtain ⟨t, ht, htext⟩ := ih vs (by simpa using h)
        refine ⟨'?' :: ((splitHoles cs).1 ++ t), ?_, ?_⟩
        · simp [splitHoles, spliceParams, ht, bind, Except.bind]
        · simp [splitHoles, htext]
    · obtain ⟨t, ht, htext⟩ := ih vs (by simpa [List.count_cons, hc] using h)
      exact ⟨t, by simpa [splitHoles, hc] using ht, by simp [splitHoles, hc, htext]⟩

/-- The component that binds every value at its own question mark. -/
def bindPlain (sql : List Char) (vs : List JsVal) : Except String AssembledSql :=
  if sql.count '?' ≠ vs.length then .error (mismatchMessage (sql.count '?') vs.length sql)
  else .ok ⟨sql, vs⟩

theorem ofValues_length (vs : List JsVal) : (ofValues vs).length = vs.length := by
  induction vs with
  | nil => rfl
  | cons v vs ih => simp [ofValues, ih]

theorem ofValues_unshaped {vs : List JsVal} (h : ∀ v ∈ vs, isMakeSQL v = false) :
    ofValues vs = vs.map SqlParam.bound := by
  induction vs with
  | nil => rfl
  | cons v vs ih =>
    rw [ofValues, ofValue_of_unshaped (h v List.mem_cons_self),
      ih fun w hw => h w (List.mem_cons_of_mem v hw)]
    rfl

/-- A statement binds its values plainly iff none of them has the shape of a component. -/
theorem assemble_eq_bindPlain_iff (sql : List Char) (vs : List JsVal) :
    assembleMakeSQL (.mk sql (ofValues vs) false) = bindPlain sql vs ↔
      sql.count '?' ≠ vs.length ∨ ∀ v ∈ vs, isMakeSQL v = false := by
  have hlen := splitHoles_length sql
  by_cases hcount : sql.count '?' = vs.length
  · rw [bindPlain, if_neg (not_not.mpr hcount)]
    simp only [hcount, ne_eq, not_true_eq_false, false_or]
    constructor
    · intro h
      simp only [assembleMakeSQL, Bool.false_eq_true, if_false, hlen, ofValues_length, hcount,
        ne_eq, not_true_eq_false] at h
      cases hs : spliceParams (ofValues vs) (splitHoles sql).2 with
      | error e =>
        rw [hs] at h
        cases h
      | ok r =>
        rw [hs] at h
        have hun := splice_params_unshaped vs _ r hs
        have hp : r.params = vs := congrArg AssembledSql.params (Except.ok.inj h)
        rwa [hp] at hun
    · intro h
      obtain ⟨t, ht, htext⟩ := spliceParams_bound vs sql hcount
      simp [assembleMakeSQL, hlen, ofValues_unshaped h, hcount, ht, Except.map, htext]
  · simp [assembleMakeSQL, hlen, ofValues_length, hcount, bindPlain]

/-! ## The renderers on the assembled text -/

/-- Some question mark has an odd number of apostrophes before it. -/
def oddHole (inString : Bool) : List Char → Bool
  | [] => false
  | c :: cs => (c = '?' && inString) || oddHole (if c = '\'' then !inString else inString) cs

/-- The live `$`-references of a text, in order. -/
def dollarRefs (sql : List Char) : List Nat := refs .none (mark .code sql)

theorem countHoles_eq_numbered (k : Nat) (a : Marked) (h : deads a = 0) :
    countHoles k a.text = numbered k a := by
  induction a generalizing k with
  | nil => rfl
  | cons x a ih =>
    obtain ⟨c, l⟩ := x
    have hparts : deads a = 0 ∧ ¬ (c = '?' ∧ l = false) := by
      simp only [deads, List.count_cons] at h ⊢
      refine ⟨by omega, ?_⟩
      rintro ⟨rfl, rfl⟩
      simp at h
    have hih := fun k => ih k hparts.1
    simp only [Marked.text, List.map_cons, countHoles, numbered] at hih ⊢
    by_cases hc : c = '?'
    · have hl : l = true := by
        cases l
        · exact absurd ⟨hc, rfl⟩ hparts.2
        · rfl
      simp [hc, hl, hih]
    · simp [hc, hih]

theorem renderFrom_eq_countHoles {b : Bool} {cs : List Char} (h : oddHole b cs = false) (k : Nat) :
    renderFrom b k cs = countHoles k cs := by
  induction cs generalizing b k with
  | nil => rfl
  | cons c cs ih =>
    simp only [oddHole, Bool.or_eq_false_iff] at h
    obtain ⟨hc, hcs⟩ := h
    cases b with
    | true =>
      have hq : c ≠ '?' := by simpa using hc
      by_cases ha : c = '\'' <;> simp_all [renderFrom, countHoles]
    | false =>
      by_cases ha : c = '\''
      · simp_all [renderFrom, countHoles]
      · by_cases hq : c = '?' <;> simp_all [renderFrom, countHoles]

theorem mem_renderFrom {b : Bool} {cs : List Char} (h : oddHole b cs = true) (k : Nat) :
    '?' ∈ renderFrom b k cs := by
  induction cs generalizing b k with
  | nil => cases h
  | cons c cs ih =>
    simp only [oddHole, Bool.or_eq_true] at h
    cases b with
    | true =>
      rcases h with hc | hcs
      · have hq : c = '?' := by simpa using hc
        simp [renderFrom, hq]
      · by_cases ha : c = '\'' <;> simp_all [renderFrom]
    | false =>
      have hcs : oddHole (if c = '\'' then !false else false) cs = true := by simpa using h
      by_cases ha : c = '\''
      · simp_all [renderFrom]
      · by_cases hq : c = '?' <;> simp_all [renderFrom]

theorem not_mem_numbered (k : Nat) (a : Marked) (h : deads a = 0) : '?' ∉ numbered k a := by
  induction a generalizing k with
  | nil => simp [numbered]
  | cons x a ih =>
    obtain ⟨c, l⟩ := x
    have hparts : deads a = 0 ∧ ¬ (c = '?' ∧ l = false) := by
      simp only [deads, List.count_cons] at h ⊢
      refine ⟨by omega, ?_⟩
      rintro ⟨rfl, rfl⟩
      simp at h
    have hdig : '?' ∉ Nat.toDigits 10 (k + 1) := fun hm =>
      absurd (Nat.isDigit_of_mem_toDigits (by decide) (by decide) hm) (by decide)
    simp only [numbered]
    split
    · simp [hdig, ih (k + 1) hparts.1]
    · rename_i hc
      have hq : '?' ≠ c := by
        rintro rfl
        cases l
        · exact hparts.2 ⟨rfl, rfl⟩
        · exact hc ⟨rfl, rfl⟩
      simp [hq, ih k hparts.1]

theorem renderPlaceholders_eq_iff (a : Marked) (h : deads a = 0) :
    renderPlaceholders a.text .postgres = numbered 0 a ↔ oddHole false a.text = false := by
  have hp : renderPlaceholders a.text .postgres = renderFrom false 0 a.text := rfl
  rw [hp]
  constructor
  · intro heq
    cases ho : oddHole false a.text with
    | false => rfl
    | true => exact absurd (heq ▸ mem_renderFrom ho 0) (not_mem_numbered 0 a h)
  · intro ho
    rw [renderFrom_eq_countHoles ho, countHoles_eq_numbered 0 a h]

/-- What assembly and the three renderers are to make of a component with reading `r`. -/
structure RendersAlike (node : MakeSQL) (r : Reading) : Prop where
  assembled : assembleMakeSQL node = .ok ⟨r.marked.text, r.params⟩
  rendered : renderPlaceholders r.marked.text .postgres = numbered 0 r.marked
  dollars : toDollarPlaceholders r.marked.text = numbered 0 r.marked
  converted : convertPlaceholders r.marked.text = numbered 0 r.marked
  refs : dollarRefs (numbered 0 r.marked) = List.range' 1 r.params.length

/-- The texts on which the quote-blind and the quote-aware scanners see the same placeholders. -/
structure PlainHoles (a : Marked) : Prop where
  alive : deads a = 0
  even : oddHole false a.text = false
  apart : stray false a = false

/-- Assembly and the renderers agree with the reading of a component iff its holes are plain. -/
theorem rendersAlike_iff (node : MakeSQL) (r : Reading) (hr : readMakeSQL .code node = some r) :
    RendersAlike node r ↔ PlainHoles r.marked := by
  obtain ⟨hmark, hholes⟩ := readMakeSQL_marked .code node r hr
  obtain ⟨hok, herr⟩ := assemble_of_reading .code node r hr
  have hrefs := numberedRefs_eq_iff .none trivial .code 0 r.marked.text
  simp only [numberedRefs, ← hmark, hholes, Phase.emit, List.nil_append, Nat.zero_add,
    Phase.armed] at hrefs
  constructor
  · intro h
    have hd : deads r.marked = 0 := by
      by_contra hd
      obtain ⟨e, he⟩ := herr hd
      rw [h.assembled] at he
      cases he
    exact ⟨hd, (renderPlaceholders_eq_iff r.marked hd).mp h.rendered, hrefs.mp h.refs⟩
  · intro h
    have hcount := countHoles_eq_numbered 0 r.marked h.alive
    exact ⟨hok h.alive, (renderPlaceholders_eq_iff r.marked h.alive).mpr h.even, hcount, hcount,
      hrefs.mpr h.apart⟩


theorem rendersAlike_subquery :
    RendersAlike
      (.mk "a = ? AND b IN (?)".toList
        [.bound (.str "x"), .nested (.mk "SELECT c WHERE d = ?".toList [.bound .null] false)] false)
      ⟨mark .code "a = ? AND b IN (SELECT c WHERE d = ?)".toList, [.str "x", .null]⟩ := by
  apply (rendersAlike_iff _ _ _).mpr
  · exact ⟨by decide, by decide, by decide⟩
  · simp [readMakeSQL, readParams, toHole, Mode.live, Mode.step, Mode.open', mark, Marked.text]

/-- A question mark in a string literal makes the assembler reject a well-formed component. -/
theorem assembleMakeSQL_rejects_literal :
    ¬ ∀ node r, readMakeSQL .code node = some r → RendersAlike node r := by
  intro h
  have hread : readMakeSQL .code (.mk "a = '?' AND b = ?".toList [.bound .null] false) =
      some ⟨mark .code "a = '?' AND b = ?".toList, [.null]⟩ := by
    simp [readMakeSQL, readParams, toHole, Mode.live, Mode.step, Mode.open', mark]
  obtain ⟨e, he⟩ := (assemble_of_reading .code _ _ hread).2 (by decide)
  rw [(h _ _ hread).assembled] at he
  cases he

end LiteDb
