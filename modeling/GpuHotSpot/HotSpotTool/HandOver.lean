import GpuHotSpot.HotSpotTool.TempFile

/-!
# Hand-over of temperatures

A dumped temperature file is a list of entries, each the name of a block or of a package
node and its temperature. The reader takes the entries one by one, but leaves those out
that look like comments.

* `readEntry_entryText`: one entry.
* `readUnits_spec`, `readLayers_spec`, `readNodes_spec`: what a loop makes of its entries.
* `noComment_of_readTempGrid`: a file that is read has no comments among its entries.
* `handsOver_iff`: when a dumped file is read back and prints the same again.
-/

namespace GpuHotSpot.HotSpotTool.TempFile

variable {K : Type} [Field K] [LinearOrder K] [FloorRing K] {d : Doubles K}

/-! ## Entries -/

/-- The name on a line, and the slot of its temperature. -/
abbrev Entry := Text × ℕ

/-- What stands on a line before the temperature. -/
structure IsKey (key : Text) : Prop where
  token : Token key
  short : key.length ≤ 600

/-- The reader takes the line for a comment. -/
def IsComment (key : Text) : Prop := key.head? = some '#'

instance : DecidablePred IsComment := fun key => inferInstanceAs (Decidable (key.head? = some '#'))

def visible (e : Entry) : Bool := decide (¬IsComment e.1)

def entryLine (temp : ℕ → Double d) (e : Entry) : Text := GridModel.tempLine e.1 (temp e.2)

def entryText (temp : ℕ → Double d) (es : List Entry) : Text := unlines (es.map (entryLine temp))

variable {temp : ℕ → Double d} {e : Entry} {es : List Entry}

theorem entryLine_oneLine (key : IsKey e.1) : OneLine (entryLine temp e) := by
  intro c member
  rw [entryLine, GridModel.tempLine, List.mem_append, List.mem_cons] at member
  rcases member with inKey | rfl | inNumber
  · exact key.token.oneLine c inKey
  · exact ⟨by decide, by decide⟩
  · exact ((temp e.2).fmt_token 4).oneLine c inNumber

theorem isSpace_of_isBlank {c : Char} (blank : isBlank c = true) : isSpace c = true := by
  simp only [isBlank, Bool.or_eq_true, decide_eq_true_eq] at blank
  rcases blank with ((rfl | rfl) | rfl) | rfl <;> decide

theorem tokensBy_entryLine (key : IsKey e.1) :
    tokensBy isBlank (entryLine temp e ++ ['\n']) = [e.1, (temp e.2).fmt 4] := by
  have alone : ∀ {t : Text}, Token t → tokensBy isBlank t = [t] := by
    intro t token
    refine tokensBy_singleton token.ne_nil fun c member => ?_
    by_contra blank
    have space := isSpace_of_isBlank (Bool.not_eq_false _ ▸ blank)
    rw [token.noSpace c member] at space
    exact Bool.false_ne_true space
  rw [tokensBy_append_singleton _ (by decide), entryLine, GridModel.tempLine,
    tokensBy_append_cons _ _ (by decide), alone key.token, alone ((temp e.2).fmt_token 4)]
  rfl

theorem length_entryText : es.length ≤ (entryText temp es).length := by
  induction es with
  | nil => exact Nat.zero_le _
  | cons e es ih =>
    rw [entryText, List.map_cons, unlines_cons, List.length_append, List.length_cons,
      List.length_cons, ← entryText]
    omega

variable [IsStrictOrderedRing K]

theorem entryLine_short (key : IsKey e.1) : (entryLine temp e).length < lineSize - 1 := by
  have number := (temp e.2).length_fmt (n := 4) (by decide)
  have short := key.short
  rw [entryLine, GridModel.tempLine, List.length_append, List.length_cons]
  simp only [lineSize]
  omega

/-- The reader skips comments. -/
theorem nextEntry_entryText (keys : ∀ e ∈ es, IsKey e.1) {fuel : ℕ} (enough : es.length < fuel) :
    GridModel.nextEntry fuel (entryText temp es) = (es.dropWhile (!visible ·)).head?.map fun e =>
      (entryLine temp e ++ ['\n'], entryText temp (es.dropWhile (!visible ·)).tail) := by
  induction es generalizing fuel with
  | nil =>
    obtain ⟨fuel, rfl⟩ := Nat.exists_eq_add_one_of_ne_zero (Nat.ne_of_gt enough)
    rfl
  | cons e es ih =>
    obtain ⟨fuel, rfl⟩ := Nat.exists_eq_add_one_of_ne_zero (Nat.ne_of_gt (Nat.zero_lt_of_lt enough))
    have key := keys e List.mem_cons_self
    have first : fgets (lineSize - 1) (entryText temp (e :: es)) =
        some (entryLine temp e ++ ['\n'], entryText temp es) := by
      rw [entryText, List.map_cons, unlines_cons]
      exact fgets_line (entryLine_oneLine key) (entryLine_short key) _
    rw [GridModel.nextEntry, first]
    simp only [Option.bind_some, tokensBy_entryLine key]
    by_cases comment : e.1.head? = some '#'
    · rw [if_pos comment, ih (fun e member => keys e (List.mem_cons_of_mem _ member))
        (by simpa using enough)]
      simp [visible, IsComment, comment]
    · rw [if_neg comment]
      simp [visible, IsComment, comment]

/-- One entry, read with a format. -/
theorem readEntry_entryText (keys : ∀ e ∈ es, IsKey e.1) (format : Text) :
    GridModel.readEntry d format (entryText temp es) =
      (es.dropWhile (!visible ·)).head?.elim fatal fun e =>
        match sscanf d format (entryLine temp e ++ ['\n']) with
        | [.str name, .num val] => .ok (name, val, entryText temp (es.dropWhile (!visible ·)).tail)
        | _ => fatal := by
  rw [GridModel.readEntry, nextEntry_entryText keys (Nat.lt_succ_of_le length_entryText)]
  cases (es.dropWhile (!visible ·)).head? <;> rfl

/-! ## Formats -/

omit [FloorRing K] in
theorem sscanf_cons {c : Char} (notPercent : c ≠ '%') (format t : Text) :
    sscanf d (c :: format) (c :: t) = sscanf d format t := by
  rw [sscanf]
  · exact if_pos rfl
  · intro format' percent
    exact absurd percent notPercent
  · intro format' percent
    exact absurd percent notPercent

omit [FloorRing K] in
theorem sscanf_literal {p : Text} (noPercent : ∀ c ∈ p, c ≠ '%') (format t : Text) :
    sscanf d (p ++ format) (p ++ t) = sscanf d format t := by
  induction p with
  | nil => rfl
  | cons c p ih =>
    rw [List.cons_append, List.cons_append, sscanf_cons (noPercent c List.mem_cons_self)]
    exact ih fun c member => noPercent c (List.mem_cons_of_mem _ member)

theorem takeWhile_visible {t : Text} (token : Token t) {sep : Char} (separator : isSpace sep = true)
    (rest : Text) : (t ++ sep :: rest).takeWhile (!isSpace ·) = t ∧
      (t ++ sep :: rest).dropWhile (!isSpace ·) = sep :: rest ∧
      (t ++ sep :: rest).dropWhile isSpace = t ++ sep :: rest := by
  have visible : ∀ c ∈ t, (!isSpace c) = true := fun c member => by
    rw [token.noSpace c member, Bool.not_false]
  refine ⟨?_, ?_, ?_⟩
  · rw [List.takeWhile_append_of_pos visible, List.takeWhile_cons_of_neg (by simp [separator]),
      List.append_nil]
  · rw [List.dropWhile_append_of_pos visible, List.dropWhile_cons_of_neg (by simp [separator])]
  · exact dropWhile_isSpace_row token (sep :: rest)

/-- The two conversions on a line. -/
theorem sscanf_tempLine {name : Text} (token : Token name) (x : Double d) :
    sscanf d "%s%lf".toList (GridModel.tempLine name x ++ ['\n']) =
      [.str name, .num (x.rounded 4)] := by
  have format : "%s%lf".toList = ['%', 's', '%', 'l', 'f'] := by decide
  have shape : GridModel.tempLine name x ++ ['\n'] = name ++ '\t' :: (x.fmt 4 ++ ['\n']) := by
    rw [GridModel.tempLine, List.append_assoc, List.cons_append]
  obtain ⟨field, rest, start⟩ := takeWhile_visible token (by decide : isSpace '\t' = true)
    (x.fmt 4 ++ ['\n'])
  have number := (takeWhile_visible (x.fmt_token 4) (by decide : isSpace '\n' = true) []).2.2
  have tab : ('\t' :: (x.fmt 4 ++ ['\n'])).dropWhile isSpace = x.fmt 4 ++ ['\n'] := by
    rw [List.dropWhile_cons_of_pos (by decide), number]
  rw [format, shape, sscanf]
  simp only [field, rest, start]
  rw [if_neg (by simp), sscanf, tab, Double.scan_fmt 3 x (by decide)]
  rfl

/-! ## Reading what was dumped -/

/-- The first entry, if it is no comment, is read with the format of its prefix. -/
theorem readEntry_cons (temp : ℕ → Double d) {p name : Text} {slot : ℕ} {more : List Entry} (isPrefix : GridModel.IsPrefix p)
    (token : Token name) (noComment : ¬IsComment (p ++ name))
    (keys : ∀ e ∈ (p ++ name, slot) :: more, IsKey e.1) :
    GridModel.readEntry d (p ++ "%s%lf".toList) (entryText temp ((p ++ name, slot) :: more)) =
      .ok (name, (temp slot).rounded 4, entryText temp more) := by
  have line : entryLine temp (p ++ name, slot) ++ ['\n'] =
      p ++ (GridModel.tempLine name (temp slot) ++ ['\n']) := by
    simp only [entryLine, GridModel.tempLine, List.append_assoc]
  have first : ((p ++ name, slot) :: more).dropWhile (!visible ·) = (p ++ name, slot) :: more :=
    List.dropWhile_cons_of_neg (by simp [visible, noComment])
  rw [readEntry_entryText keys, first, List.head?_cons, Option.elim_some, line,
    sscanf_literal isPrefix.noPercent, sscanf_tempLine token]
  rfl

theorem getBlkIndex_append {front todo : List Text} {name : Text}
    (distinct : ((front ++ name :: todo).map foldCase).Nodup) :
    getBlkIndex (front ++ name :: todo) name = .ok front.length := by
  have here : front.length < (front ++ name :: todo).length := by simp
  obtain ⟨u, inside, -, found, same⟩ := @exists_findIdx (front ++ name :: todo) name
    (List.mem_map_of_mem (by simp))
  rw [found, unit_unique distinct inside here (by rw [← same]; simp)]

/-- The temperatures of the slots from `low` to `high`, as read from a file. -/
def restored (temp before : ℕ → Double d) (low high : ℕ) : ℕ → Double d :=
  fun k => if low ≤ k ∧ k < high then (temp k).rounded 4 else before k

theorem restored_update {before : ℕ → Double d} {low high : ℕ} (inside : low < high) :
    restored temp (Function.update before low ((temp low).rounded 4)) (low + 1) high =
      restored temp before low high := by
  funext k
  simp only [restored, Function.update_apply]
  rcases Nat.lt_trichotomy k low with below | rfl | above
  · rw [if_neg (by omega), if_neg (by omega), if_neg (by omega)]
  · rw [if_neg (by omega), if_pos rfl, if_pos (by omega)]
  · by_cases last : k < high
    · rw [if_pos (by omega), if_pos (by omega)]
    · rw [if_neg (by omega), if_neg (by omega), if_neg (by omega)]

/-- The entries of a layer's blocks. -/
def unitEntries (p : Text) (units : List Text) (start : ℕ) : List Entry :=
  (units.zipIdx start).map fun (name, slot) => (p ++ name, slot)

theorem isKey_append {p name : Text} (isPrefix : GridModel.IsPrefix p) (isName : IsName name) :
    IsKey (p ++ name) := by
  refine ⟨⟨by simp [isName.token.ne_nil], fun c member => ?_⟩, ?_⟩
  · rcases List.mem_append.mp member with inPrefix | inName
    · exact isPrefix.noSpace c inPrefix
    · exact isName.token.noSpace c inName
  · have short := isName.short
    have front := isPrefix.short
    rw [List.length_append]
    simp only [strSize] at short
    omega

theorem isKey_unitEntries {p : Text} {units : List Text} {start : ℕ}
    (isPrefix : GridModel.IsPrefix p) (isName : ∀ name ∈ units, IsName name) :
    ∀ e ∈ unitEntries p units start, IsKey e.1 := by
  intro e member
  obtain ⟨⟨name, slot⟩, inside, rfl⟩ := List.mem_map.mp member
  exact isKey_append isPrefix (isName name (List.fst_mem_of_mem_zipIdx inside))

theorem exists_mem_unitEntries (p : Text) {units : List Text} (start : ℕ) {name : Text}
    (member : name ∈ units) : ∃ slot, (p ++ name, slot) ∈ unitEntries p units start := by
  rw [← List.zipIdx_map_fst start units] at member
  obtain ⟨⟨name, slot⟩, inside, rfl⟩ := List.mem_map.mp member
  exact ⟨slot, List.mem_map.mpr ⟨_, inside, rfl⟩⟩

/-- **A layer.** The blocks that are left of a layer get the dumped temperatures. -/
theorem readUnits_spec (temp : ℕ → Double d) {p : Text} (n base : ℕ) (front : List Text) {todo : List Text}
    {more : List Entry}
    (distinct : ((front ++ todo).map foldCase).Nodup) (isPrefix : GridModel.IsPrefix p)
    (isName : ∀ name ∈ todo, IsName name) (noComment : ∀ name ∈ todo, ¬IsComment (p ++ name))
    (keys : ∀ e ∈ more, IsKey e.1) (before : ℕ → Double d) (max : Double d) :
    ∃ max', GridModel.readUnits (front ++ todo) (p ++ "%s%lf".toList) n base todo.length
        ⟨before, max, entryText temp (unitEntries p todo (base + front.length) ++ more)⟩ =
      .ok ⟨restored temp before (base + front.length) (base + (front ++ todo).length), max',
        entryText temp more⟩ := by
  induction todo generalizing front before max with
  | nil =>
    have none : restored temp before (base + front.length) (base + (front ++ []).length) = before := by
      funext k
      rw [List.append_nil]
      exact if_neg (by omega)
    rw [none]
    exact ⟨max, rfl⟩
  | cons name todo ih =>
    have named := isName name List.mem_cons_self
    have entries : unitEntries p (name :: todo) (base + front.length) ++ more =
        (p ++ name, base + front.length) ::
          (unitEntries p todo (base + front.length + 1) ++ more) := by
      rw [unitEntries, List.zipIdx_cons, List.map_cons, List.cons_append, unitEntries]
    have keys' : ∀ e ∈ unitEntries p (name :: todo) (base + front.length) ++ more, IsKey e.1 := by
      intro e member
      rcases List.mem_append.mp member with own | other
      · exact isKey_unitEntries isPrefix isName e own
      · exact keys e other
    rw [entries] at keys' ⊢
    have entry := readEntry_cons temp isPrefix named.token
      (noComment name List.mem_cons_self) keys'
    have index := getBlkIndex_append distinct
    obtain ⟨max', rest⟩ := ih (front ++ [name]) (by simpa using distinct)
      (fun name member => isName name (List.mem_cons_of_mem _ member))
      (fun name member => noComment name (List.mem_cons_of_mem _ member))
      (Function.update before (base + front.length) ((temp (base + front.length)).rounded 4))
      (if n = 0 ∧ max.value < (Function.update before (base + front.length)
        ((temp (base + front.length)).rounded 4) front.length).value then
        Function.update before (base + front.length)
          ((temp (base + front.length)).rounded 4) front.length else max)
    refine ⟨max', ?_⟩
    rw [List.length_cons, GridModel.readUnits, entry, ok_bind]
    dsimp only
    rw [index, ok_bind]
    have inside : base + front.length < base + (front ++ name :: todo).length := by simp
    rw [← restored_update inside]
    simpa [add_assoc] using rest

theorem restored_restored {before : ℕ → Double d} {low middle high : ℕ} (le : low ≤ middle)
    (le' : middle ≤ high) :
    restored temp (restored temp before low middle) middle high = restored temp before low high := by
  funext k
  simp only [restored]
  by_cases above : middle ≤ k
  · by_cases below : k < high
    · rw [if_pos ⟨above, below⟩, if_pos ⟨le.trans above, below⟩]
    · rw [if_neg (by omega), if_neg (by omega), if_neg (by omega)]
  · by_cases inside : low ≤ k
    · rw [if_neg (by omega), if_pos (by omega), if_pos (by omega)]
    · rw [if_neg (by omega), if_neg (by omega), if_neg (by omega)]

namespace GridModel

variable (m : GridModel)

/-- The prefix of a layer. -/
def layerPrefix (n : ℕ) : Text :=
  match m.dumpPrefix n with
  | .ok p => p
  | .error _ => []

/-- The entries of the layers from number `n` on. -/
def layerEntries : List (List Text) → ℕ → ℕ → List Entry
  | [], _, _ => []
  | units :: layers, n, base =>
    unitEntries (m.layerPrefix n) units base ++ layerEntries layers (n + 1) (base + units.length)

/-- The entries of the package nodes from number `i` on. -/
def nodeEntries (base i count : ℕ) : List Entry :=
  (List.range' i count).map fun i => (inode i, base + i)

/-- The entries of a dumped file. -/
def entries : List Entry :=
  m.layerEntries m.layers 0 0 ++ nodeEntries m.totalNBlocks 0 m.extraNodes

variable {m} {n : ℕ}

theorem layerPrefix_spec (inside : n < m.nLayers) :
    m.dumpPrefix n = .ok (m.layerPrefix n) ∧
      m.readFormat n = .ok (m.layerPrefix n ++ "%s%lf".toList) ∧ IsPrefix (m.layerPrefix n) ∧
      (m.layerPrefix n = [] ↔ m.hasLcf = false ∧ n = m.silidx) := by
  obtain ⟨p, writer, reader, isPrefix, bare⟩ := m.agree_dumpPrefix_readFormat inside
  have same : m.layerPrefix n = p := by
    rw [layerPrefix, writer]
  rw [same]
  exact ⟨writer, reader, isPrefix, bare⟩

omit [IsStrictOrderedRing K] in
theorem dumpLayers_eq {layers : List (List Text)} {base : ℕ} (inside : n + layers.length ≤ m.nLayers) :
    m.dumpLayers temp layers n base = .ok ((m.layerEntries layers n base).map (entryLine temp)) := by
  induction layers generalizing n base with
  | nil => rfl
  | cons units layers ih =>
    rw [List.length_cons] at inside
    have own := (layerPrefix_spec (m := m) (n := n) (by omega)).1
    have lines : units.zipIdx.map (fun (name, i) =>
        tempLine (m.layerPrefix n ++ name) (temp (base + i))) =
        (unitEntries (m.layerPrefix n) units base).map (entryLine temp) := by
      rw [unitEntries, List.zipIdx_eq_map_add (i := base), List.map_map, List.map_map]
      exact List.map_congr_left fun e _ => rfl
    rw [dumpLayers, own, ok_bind, ih (by omega), ok_bind, lines, layerEntries, List.map_append]
    rfl

omit [IsStrictOrderedRing K] in
theorem dumpTempGrid_eq : m.dumpTempGrid temp = .ok (entryText temp m.entries) := by
  rw [dumpTempGrid, dumpLayers_eq (by rw [Nat.zero_add]; exact le_rfl), ok_bind, entryText, entries, List.map_append,
    nodeEntries, List.map_map, List.range_eq_range']
  rfl

theorem inode_isName {i : ℕ} (small : i < 2 ^ 31) : IsName (inode i) := by
  have length : (Nat.toDigits 10 i).length ≤ 10 :=
    (Nat.length_toDigits_le_iff (by decide) (by decide)).mpr (small.trans (by decide))
  rw [inode_eq]
  refine ⟨⟨by simp, fun c member => ?_⟩, ?_⟩
  · rcases List.mem_append.mp member with front | digits
    · exact (by decide : IsPrefix "inode_".toList).noSpace c front
    · exact toDigits_noSpace (by decide) (by decide) digits
  · have front : "inode_".toList.length = 6 := by decide
    rw [List.length_append]
    simp only [strSize]
    omega

theorem isKey_nodeEntries {base i count : ℕ} (small : i + count ≤ 2 ^ 31) :
    ∀ e ∈ nodeEntries base i count, IsKey e.1 := by
  intro e member
  obtain ⟨k, inside, rfl⟩ := List.mem_map.mp member
  rw [List.mem_range'_1] at inside
  have isName := inode_isName (i := k) (by omega)
  exact ⟨isName.token, isName.short.le.trans (by decide)⟩

theorem isKey_layerEntries {layers : List (List Text)} {base : ℕ}
    (inside : n + layers.length ≤ m.nLayers)
    (isName : ∀ units ∈ layers, ∀ name ∈ units, IsName name) :
    ∀ e ∈ m.layerEntries layers n base, IsKey e.1 := by
  induction layers generalizing n base with
  | nil => simp [layerEntries]
  | cons units layers ih =>
    rw [List.length_cons] at inside
    have isPrefix := (layerPrefix_spec (m := m) (n := n) (by omega)).2.2.1
    intro e member
    rcases List.mem_append.mp member with own | other
    · exact isKey_unitEntries isPrefix (isName units List.mem_cons_self) e own
    · exact ih (by omega) (fun units member => isName units (List.mem_cons_of_mem _ member)) e other

/-- **The layers.** If none of their entries looks like a comment, all blocks get the dumped
temperatures. -/
theorem readLayers_spec (temp : ℕ → Double d) {layers : List (List Text)} (n base : ℕ) {more : List Entry}
    (inside : n + layers.length ≤ m.nLayers)
    (isName : ∀ units ∈ layers, ∀ name ∈ units, IsName name)
    (distinct : ∀ units ∈ layers, (units.map foldCase).Nodup)
    (noComment : ∀ e ∈ m.layerEntries layers n base, ¬IsComment e.1)
    (keys : ∀ e ∈ more, IsKey e.1) (before : ℕ → Double d) (max : Double d) :
    ∃ max', m.readLayers layers n base
        ⟨before, max, entryText temp (m.layerEntries layers n base ++ more)⟩ =
      .ok ⟨restored temp before base (base + (layers.map (·.length)).sum), max',
        entryText temp more⟩ := by
  induction layers generalizing n base before max with
  | nil =>
    have none : restored temp before base (base + 0) = before :=
      funext fun k => if_neg (by omega)
    refine ⟨max, ?_⟩
    rw [List.map_nil, List.sum_nil, none]
    rfl
  | cons units layers ih =>
    rw [List.length_cons] at inside
    obtain ⟨-, reader, isPrefix, -⟩ := layerPrefix_spec (m := m) (n := n) (by omega)
    have later := fun units member => isName units (List.mem_cons_of_mem _ member)
    have keys' : ∀ e ∈ m.layerEntries layers (n + 1) (base + units.length) ++ more, IsKey e.1 := by
      intro e member
      rcases List.mem_append.mp member with own | other
      · exact isKey_layerEntries (by omega) later e own
      · exact keys e other
    have own : ∀ name ∈ units, ¬IsComment (m.layerPrefix n ++ name) := by
      intro name member
      obtain ⟨slot, entry⟩ := exists_mem_unitEntries (m.layerPrefix n) base member
      exact noComment _ (List.mem_append_left _ entry)
    obtain ⟨max₁, first⟩ := readUnits_spec temp n base []
      (distinct units List.mem_cons_self) isPrefix (isName units List.mem_cons_self)
      own keys' before max
    obtain ⟨max₂, rest⟩ := ih (n + 1) (base + units.length) (by omega) later
      (fun units member => distinct units (List.mem_cons_of_mem _ member))
      (fun e member => noComment e (List.mem_append_right _ member))
      (restored temp before base (base + units.length)) max₁
    refine ⟨max₂, ?_⟩
    rw [layerEntries, List.append_assoc, readLayers, reader, ok_bind]
    simp only [List.length_nil, Nat.add_zero, List.nil_append] at first
    rw [first, ok_bind, rest, restored_restored (by omega) (by omega), List.map_cons, List.sum_cons,
      add_assoc]

omit [IsStrictOrderedRing K] [FloorRing K] in
theorem not_isComment_inode (i : ℕ) : ¬IsComment (inode i) := by
  rw [IsComment, inode_eq]
  simp

/-- **The package nodes** get the dumped temperatures. -/
theorem readNodes_spec (temp : ℕ → Double d) (base : ℕ) {i count : ℕ} (small : i + count ≤ 2 ^ 31) (before : ℕ → Double d)
    (max : Double d) :
    readNodes base count i ⟨before, max, entryText temp (nodeEntries base i count)⟩ =
      .ok ⟨restored temp before (base + i) (base + i + count), max, []⟩ := by
  induction count generalizing i before with
  | zero =>
    have none : restored temp before (base + i) (base + i + 0) = before :=
      funext fun k => if_neg (by omega)
    rw [none]
    rfl
  | succ count ih =>
    have keys : ∀ e ∈ nodeEntries base i (count + 1), IsKey e.1 := isKey_nodeEntries small
    have entries : nodeEntries base i (count + 1) =
        ([] ++ inode i, base + i) :: nodeEntries base (i + 1) count := by
      rw [nodeEntries, List.range'_succ, List.map_cons]
      rfl
    have isName := inode_isName (i := i) (by omega)
    rw [entries] at keys ⊢
    have entry := readEntry_cons temp (by decide : IsPrefix []) isName.token
      (not_isComment_inode i) keys
    rw [readNodes]
    rw [List.nil_append] at entry
    rw [entry, ok_bind]
    dsimp only
    rw [if_pos rfl, ih (by omega), ← add_assoc, restored_update (by omega), add_right_comm,
      add_assoc]

variable {limits : Limits d} {before : ℕ → Double d}

theorem isKey_entries : ∀ e ∈ m.entries, IsKey e.1 := by
  have few : 0 + m.extraNodes ≤ 2 ^ 31 := by
    rw [extraNodes]
    split <;> decide
  intro e member
  rcases List.mem_append.mp member with block | node
  · exact isKey_layerEntries (by rw [Nat.zero_add]; exact le_rfl) m.isName e block
  · exact isKey_nodeEntries few e node

/-- A dumped file without comments is read back: each block and package node gets the double
nearest to its temperature with four decimals. -/
theorem readTempGrid_entries (noComment : ∀ e ∈ m.entries, ¬IsComment e.1) :
    m.readTempGrid limits false before (entryText temp m.entries) =
      .ok (restored temp before 0 (m.totalNBlocks + m.extraNodes)) := by
  have few : 0 + m.extraNodes ≤ 2 ^ 31 := by
    rw [extraNodes]
    split <;> decide
  obtain ⟨max, blocks⟩ := readLayers_spec temp 0 0 (by rw [Nat.zero_add]; exact le_rfl) m.isName
    m.distinct (fun e member => noComment e (List.mem_append_left _ member))
    (isKey_nodeEntries few) before (Double.ofValue d 0)
  have nodes := readNodes_spec temp m.totalNBlocks few
    (restored temp before 0 m.totalNBlocks) max
  rw [Nat.zero_add, ← totalNBlocks] at blocks
  rw [readTempGrid, entries, blocks, ok_bind, nodes, ok_bind, Nat.add_zero,
    restored_restored (Nat.zero_le _) (Nat.le_add_right _ _)]
  rfl

/-! ## Comments among the entries -/

/-- The lines left of a dumped file, with `count` fewer that are no comments. -/
def Left (temp : ℕ → Double d) (es : List Entry) (count : ℕ) (pin : Text) : Prop :=
  ∃ es', pin = entryText temp es' ∧ (∀ e ∈ es', IsKey e.1) ∧
    es.countP visible = es'.countP visible + count

theorem countP_dropWhile (es : List Entry) :
    (es.dropWhile (!visible ·)).countP visible = es.countP visible := by
  induction es with
  | nil => rfl
  | cons e es ih =>
    by_cases seen : visible e = true
    · rw [List.dropWhile_cons_of_neg (by simp [seen])]
    · rw [List.dropWhile_cons_of_pos (by simpa using seen), List.countP_cons_of_neg seen, ih]

/-- Each entry that is read takes a line that is no comment. -/
theorem readEntry_left {format rest name : Text} {val : Double d} (keys : ∀ e ∈ es, IsKey e.1)
    (ok : readEntry d format (entryText temp es) = .ok (name, val, rest)) : Left temp es 1 rest := by
  rw [readEntry_entryText keys] at ok
  have count := countP_dropWhile es
  have kept := (es.dropWhile_sublist (!visible ·)).subset
  have first := List.head?_dropWhile_not (!visible ·) es
  cases shape : es.dropWhile (!visible ·) with
  | nil =>
    rw [shape] at ok
    cases ok
  | cons e es' =>
    rw [shape] at ok count kept first
    simp only [List.head?_cons, Option.elim_some, List.tail_cons] at ok first
    have rest : rest = entryText temp es' := by
      split at ok <;> cases ok
      rfl
    refine ⟨es', rest, fun e member => keys e (kept (List.mem_cons_of_mem _ member)), ?_⟩
    rw [← count, List.countP_cons_of_pos (by simpa using first)]

theorem Left.next {format pin rest name : Text} {val : Double d} {count : ℕ}
    (left : Left temp es count pin) (ok : readEntry d format pin = .ok (name, val, rest)) :
    Left temp es (count + 1) rest := by
  obtain ⟨es', rfl, keys, total⟩ := left
  obtain ⟨es'', rest, keys', step⟩ := readEntry_left keys ok
  exact ⟨es'', rest, keys', by omega⟩

theorem Left.units {units : List Text} {format : Text} {base count taken : ℕ} {s s' : Reading d}
    (left : Left temp es taken s.pin) (ok : readUnits units format n base count s = .ok s') :
    Left temp es (taken + count) s'.pin := by
  induction count generalizing s taken with
  | zero =>
    cases ok
    exact left
  | succ count ih =>
    obtain ⟨⟨name, val, rest⟩, entry, ok⟩ := bind_eq_ok ok
    obtain ⟨idx, -, ok⟩ := bind_eq_ok ok
    have more := ih (left.next entry) ok
    rwa [add_assoc, add_comm 1] at more

theorem Left.layers {layers : List (List Text)} {base taken : ℕ} {s s' : Reading d}
    (left : Left temp es taken s.pin) (ok : m.readLayers layers n base s = .ok s') :
    Left temp es (taken + (layers.map (·.length)).sum) s'.pin := by
  induction layers generalizing n base s taken with
  | nil =>
    cases ok
    exact left
  | cons units layers ih =>
    obtain ⟨format, -, ok⟩ := bind_eq_ok ok
    obtain ⟨s₁, first, ok⟩ := bind_eq_ok ok
    have more := ih (left.units first) ok
    rwa [add_assoc] at more

theorem Left.nodes {base i count taken : ℕ} {s s' : Reading d} (left : Left temp es taken s.pin)
    (ok : readNodes base count i s = .ok s') : Left temp es (taken + count) s'.pin := by
  induction count generalizing i s taken with
  | zero =>
    cases ok
    exact left
  | succ count ih =>
    obtain ⟨⟨name, val, rest⟩, entry, ok⟩ := bind_eq_ok ok
    simp only at ok
    split at ok
    · have more := ih (left.next entry) ok
      rwa [add_assoc, add_comm 1] at more
    · cases ok

theorem length_layerEntries {layers : List (List Text)} {base : ℕ} :
    (m.layerEntries layers n base).length = (layers.map (·.length)).sum := by
  induction layers generalizing n base with
  | nil => rfl
  | cons units layers ih =>
    rw [layerEntries, List.length_append, ih, unitEntries, List.length_map, List.length_zipIdx,
      List.map_cons, List.sum_cons]

/-- **No comments.** A dumped file that is read has a line for each block and each package node, so
none of its entries is a comment. -/
theorem noComment_of_readTempGrid {clip : Bool} {after : ℕ → Double d}
    (ok : m.readTempGrid limits clip before (entryText temp m.entries) = .ok after) :
    ∀ e ∈ m.entries, ¬IsComment e.1 := by
  obtain ⟨s₁, blocks, ok⟩ := bind_eq_ok ok
  obtain ⟨s₂, nodes, -⟩ := bind_eq_ok ok
  have start : Left temp m.entries 0 (entryText temp m.entries) := ⟨m.entries, rfl, isKey_entries, rfl⟩
  obtain ⟨es', -, -, total⟩ := (start.layers blocks).nodes nodes
  have length : m.entries.length = m.totalNBlocks + m.extraNodes := by
    rw [entries, List.length_append, length_layerEntries, nodeEntries, List.length_map,
      List.length_range', totalNBlocks]
  have all : m.entries.countP visible = m.entries.length := by
    have most := List.countP_le_length (p := visible) (l := m.entries)
    rw [← totalNBlocks] at total
    omega
  intro e member
  have seen := List.countP_eq_length.mp all e member
  simpa [visible] using seen

/-! ## Main result -/

theorem isComment_append {p name : Text} (isPrefix : IsPrefix p) :
    IsComment (p ++ name) ↔ p = [] ∧ IsComment name := by
  cases p with
  | nil => simp
  | cons c p =>
    refine iff_of_false isPrefix.noComment ?_
    simp

/-- Only names without a prefix can look like comments. -/
theorem layerEntries_noComment {layers : List (List Text)} {base : ℕ}
    (inside : n + layers.length ≤ m.nLayers) :
    (∀ e ∈ m.layerEntries layers n base, ¬IsComment e.1) ↔
      ∀ k, m.layerPrefix (n + k) = [] → ∀ name ∈ layers.getD k [], ¬IsComment name := by
  induction layers generalizing n base with
  | nil => simp [layerEntries]
  | cons units layers ih =>
    rw [List.length_cons] at inside
    have isPrefix := (layerPrefix_spec (m := m) (n := n) (by omega)).2.2.1
    have own : (∀ e ∈ unitEntries (m.layerPrefix n) units base, ¬IsComment e.1) ↔
        (m.layerPrefix n = [] → ∀ name ∈ units, ¬IsComment name) := by
      constructor
      · intro none bare name member comment
        obtain ⟨slot, entry⟩ := exists_mem_unitEntries (m.layerPrefix n) base member
        exact none _ entry ((isComment_append isPrefix).mpr ⟨bare, comment⟩)
      · intro none e member comment
        obtain ⟨⟨name, slot⟩, inside, rfl⟩ := List.mem_map.mp member
        obtain ⟨bare, comment⟩ := (isComment_append isPrefix).mp comment
        exact none bare name (List.fst_mem_of_mem_zipIdx inside) comment
    simp only [layerEntries, List.mem_append, or_imp, forall_and]
    rw [own, ih (by omega)]
    constructor
    · rintro ⟨first, later⟩ k
      cases k with
      | zero => exact first
      | succ k => exact (Nat.add_right_comm n 1 k ▸ later k :)
    · intro every
      exact ⟨every 0, fun k => (Nat.add_right_comm n 1 k ▸ every (k + 1) :)⟩

theorem entries_noComment :
    (∀ e ∈ m.entries, ¬IsComment e.1) ↔
      (m.hasLcf = false → ∀ name ∈ m.layers.getD m.silidx [], ¬IsComment name) := by
  have nodes : ∀ e ∈ nodeEntries m.totalNBlocks 0 m.extraNodes, ¬IsComment e.1 := by
    intro e member
    obtain ⟨i, -, rfl⟩ := List.mem_map.mp member
    exact not_isComment_inode i
  simp only [entries, List.mem_append, or_imp, forall_and]
  rw [and_iff_left nodes, layerEntries_noComment (by rw [Nat.zero_add]; exact le_rfl)]
  simp only [Nat.zero_add]
  constructor
  · intro none lcf
    by_cases inside : m.silidx < m.nLayers
    · exact none m.silidx ((layerPrefix_spec inside).2.2.2.mpr ⟨lcf, rfl⟩)
    · rw [List.getD_eq_default _ _ (not_lt.mp inside)]
      simp
  · intro none k bare
    by_cases inside : k < m.nLayers
    · obtain ⟨lcf, rfl⟩ := (layerPrefix_spec inside).2.2.2.mp bare
      exact none lcf
    · rw [List.getD_eq_default _ _ (not_lt.mp inside)]
      simp

theorem slot_lt_of_mem_layerEntries {layers : List (List Text)} {base : ℕ} :
    ∀ e ∈ m.layerEntries layers n base, e.2 < base + (layers.map (·.length)).sum := by
  induction layers generalizing n base with
  | nil => simp [layerEntries]
  | cons units layers ih =>
    intro e member
    rw [List.map_cons, List.sum_cons]
    rcases List.mem_append.mp member with own | other
    · obtain ⟨⟨name, slot⟩, inside, rfl⟩ := List.mem_map.mp own
      have below := List.snd_lt_add_of_mem_zipIdx inside
      dsimp only
      omega
    · have below := ih e other
      omega

theorem slot_lt_of_mem_entries : ∀ e ∈ m.entries, e.2 < m.totalNBlocks + m.extraNodes := by
  intro e member
  rcases List.mem_append.mp member with block | node
  · have below := slot_lt_of_mem_layerEntries e block
    rw [Nat.zero_add, ← totalNBlocks] at below
    omega
  · obtain ⟨i, inside, rfl⟩ := List.mem_map.mp node
    have below := (List.mem_range'_1.mp inside).2
    dsimp only
    omega

variable (m)

/-- The temperatures of one interval are handed over to the next: a dumped file is read back, each
block and package node gets the double nearest to its temperature with four decimals, and they
are dumped to the same file again. -/
def HandsOver (limits : Limits d) (temp before : ℕ → Double d) : Prop :=
  ∃ file after, m.dumpTempGrid temp = .ok file ∧
    m.readTempGrid limits false before file = .ok after ∧
    (∀ k < m.totalNBlocks + m.extraNodes, after k = (temp k).rounded 4) ∧
    m.dumpTempGrid after = .ok file

/-- **Hand-over.** For all temperatures, a dumped file is read back and dumped to the same file again,
if and only if with the default layers no block name starts with `#`. -/
theorem handsOver_iff (limits : Limits d) (temp before : ℕ → Double d) :
    m.HandsOver limits temp before ↔
      (m.hasLcf = false → ∀ name ∈ m.layers.getD m.silidx [], ¬IsComment name) := by
  rw [← entries_noComment]
  constructor
  · rintro ⟨file, after, dumped, read, -, -⟩
    rw [dumpTempGrid_eq] at dumped
    cases dumped
    exact noComment_of_readTempGrid read
  · intro noComment
    refine ⟨_, _, dumpTempGrid_eq, readTempGrid_entries noComment, fun k inside => ?_, ?_⟩
    · exact if_pos ⟨Nat.zero_le k, inside⟩
    · rw [dumpTempGrid_eq, entryText, entryText]
      congr 2
      refine List.map_congr_left fun e member => ?_
      have inside := slot_lt_of_mem_entries e member
      rw [entryLine, entryLine, restored, if_pos ⟨Nat.zero_le _, inside⟩, tempLine, tempLine,
        Double.fmt_rounded]

/-! ## A block named like a comment -/

/-- The default layers over a floorplan of one block with the name `#0`. -/
def commentBlock : GridModel where
  layers := List.replicate 4 ["#0".toList]
  hasLcf := false
  modelSecondary := false
  isName := by
    intro units member name inside
    rw [List.eq_of_mem_replicate member, List.mem_singleton] at inside
    subst inside
    exact ⟨by decide, by decide⟩
  distinct := by
    intro units member
    rw [List.eq_of_mem_replicate member]
    decide
  layers_default := fun _ => rfl
  layers_lcf := nofun
  layers_lt := by decide

/-- A line of a floorplan that starts with a form feed. -/
def formFeedLine : Text := "\x0c#0\t0.01\t0.01\t0.0\t0.0\n".toList

/-- The floorplan reader takes the block after a form feed, and its temperature is lost. -/
theorem commentBlock_lost :
    flpBlockName binary64 formFeedLine = some "#0".toList ∧
      ∀ limits temp before, ¬commentBlock.HandsOver (d := binary64) limits temp before := by
  refine ⟨?_, ?_⟩
  · rfl
  · rintro limits temp before ⟨file, after, dumped, read, -⟩
    rw [dumpTempGrid_eq] at dumped
    cases dumped
    exact entries_noComment.1 (noComment_of_readTempGrid read) rfl "#0".toList (by decide) rfl

/-- The equivalence for that block, at temperatures of zero. -/
theorem handsOver_iff_commentBlock :
    let zero := Double.ofValue binary64 0
    ¬commentBlock.HandsOver ⟨zero, zero⟩ (fun _ => zero) fun _ => zero := by
  intro zero handsOver
  exact (handsOver_iff commentBlock ⟨zero, zero⟩ _ _).mp handsOver rfl "#0".toList (by decide) rfl

end GridModel

end GpuHotSpot.HotSpotTool.TempFile
