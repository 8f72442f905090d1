import NuMakerMA35.BitUtil
import NuMakerMA35.MaskedWrite

namespace NuMakerMA35

abbrev ClkWords := Nat → U32

def clkSysclk0 : Nat := 1
def clkApbclk0 : Nat := 3
def clkApbclk2 : Nat := 5
def clkClksel0 : Nat := 6
def clkClksel4 : Nat := 10
def clkClkdiv0 : Nat := 11
def clkClkdiv4 : Nat := 15

def clkClkdiv4KpidivPos : Nat := 24
def clkClkdiv4KpidivMsk : U32 := 0xff <<< 24
def clkClkdiv4AdcdivPos : Nat := 4
def clkClkdiv4AdcdivMsk : U32 := 0x1ffff <<< 4
def clkClkdiv4EadcdivPos : Nat := 0
def clkClkdiv4EadcdivMsk : U32 := 0xf
def clkClksel4KpiselPos : Nat := 30
def clkClksel4KpiselMsk : U32 := 0x1 <<< 30
def clkApbclk0KpickenMsk : U32 := 0x1 <<< 31
def clkApbclk2AdcckenMsk : U32 := 0x1 <<< 24
def clkApbclk2EadcckenMsk : U32 := 0x1 <<< 25

def moduleApbclk (x : U32) : Nat := ((x >>> 29) &&& 0x7).toNat
def moduleClksel (x : U32) : Nat := ((x >>> 26) &&& 0x7).toNat
def moduleClkselMsk (x : U32) : U32 := (x >>> 22) &&& 0xf
def moduleClkselPos (x : U32) : Nat := ((x >>> 17) &&& 0x1f).toNat
def moduleClkdiv (x : U32) : Nat := ((x >>> 14) &&& 0x7).toNat
def moduleClkdivMsk (x : U32) : U32 := (x >>> 10) &&& 0xf
def moduleClkdivPos (x : U32) : Nat := ((x >>> 5) &&& 0x1f).toNat
def moduleIpEnPos (x : U32) : Nat := (x &&& 0x1f).toNat
def moduleNoMsk : U32 := 0x0

def kpiModule : U32 := 0x2 <<< 29 ||| 0x1f
def adcModule : U32 := 0x4 <<< 29 ||| 0x18
def eadc0Module : U32 := 0x4 <<< 29 ||| 0x19

def ClkWords.merge (clk : ClkWords) (word : Nat) (mask value : U32) : ClkWords :=
  Function.update clk word (maskedWrite mask value (clk word))

def clkSetModuleClock (clk : ClkWords) (idx src div : U32) : ClkWords :=
  if idx = kpiModule then
    let clk := clk.merge clkClkdiv4 clkClkdiv4KpidivMsk div
    let clk := clk.merge clkClksel4 clkClksel4KpiselMsk src
    clk.merge clkApbclk0 clkApbclk0KpickenMsk clkApbclk0KpickenMsk
  else if idx = adcModule then
    let clk := clk.merge clkClkdiv4 clkClkdiv4AdcdivMsk div
    clk.merge clkApbclk2 clkApbclk2AdcckenMsk clkApbclk2AdcckenMsk
  else if idx = eadc0Module then
    let clk := clk.merge clkClkdiv4 clkClkdiv4EadcdivMsk div
    clk.merge clkApbclk2 clkApbclk2EadcckenMsk clkApbclk2EadcckenMsk
  else
    let clk := if moduleClkdivMsk idx ≠ moduleNoMsk then
      clk.merge (clkClkdiv0 + moduleClkdiv idx) (moduleClkdivMsk idx <<< moduleClkdivPos idx) div
      else clk
    if moduleClkselMsk idx ≠ moduleNoMsk then
      clk.merge (clkClksel0 + moduleClksel idx) (moduleClkselMsk idx <<< moduleClkselPos idx) src
    else clk

def selTbl : List Nat := [0, 1, 2, 3, 4]

def divTbl : List Nat := [0, 1, 3, 3, 4]

def ClkWords.field (clk : ClkWords) (word : Nat) (mask : U32) (pos : Nat) : U32 :=
  (clk word &&& mask) >>> pos

/-- `CLK_GetModuleClockSource`; nothing comes back where it reads behind its table. -/
def clkGetModuleClockSource (clk : ClkWords) (idx : U32) : Option U32 :=
  if moduleClkselMsk idx ≠ moduleNoMsk then
    selTbl[moduleClksel idx]?.map fun off => clk.field (clkClksel0 + off)
      (moduleClkselMsk idx <<< moduleClkselPos idx) (moduleClkselPos idx)
  else some 0

/-- `CLK_GetModuleClockDivider`; nothing comes back where it reads behind its table. -/
def clkGetModuleClockDivider (clk : ClkWords) (idx : U32) : Option U32 :=
  if moduleClkdivMsk idx ≠ moduleNoMsk then
    if idx = kpiModule then
      some (clk.field clkClkdiv4 clkClkdiv4KpidivMsk clkClkdiv4KpidivPos)
    else if idx = adcModule then
      some (clk.field clkClkdiv4 clkClkdiv4AdcdivMsk clkClkdiv4AdcdivPos)
    else if idx = eadc0Module then
      some (clk.field clkClkdiv4 clkClkdiv4EadcdivMsk clkClkdiv4EadcdivPos)
    else divTbl[moduleClkdiv idx]?.map fun off => clk.field (clkClkdiv0 + off)
      (moduleClkdivMsk idx <<< moduleClkdivPos idx) (moduleClkdivPos idx)
  else some 0

structure ClkField where
  word : Nat
  mask : U32
  pos : Nat

/-- The field that selects a module's source; the mask of a module that has none is empty. -/
def clkSelField (idx : U32) : ClkField :=
  if idx = kpiModule then ⟨clkClksel4, clkClksel4KpiselMsk, clkClksel4KpiselPos⟩
  else ⟨clkClksel0 + moduleClksel idx, moduleClkselMsk idx <<< moduleClkselPos idx,
    moduleClkselPos idx⟩

def clkDivField (idx : U32) : ClkField :=
  if idx = kpiModule then ⟨clkClkdiv4, clkClkdiv4KpidivMsk, clkClkdiv4KpidivPos⟩
  else if idx = adcModule then ⟨clkClkdiv4, clkClkdiv4AdcdivMsk, clkClkdiv4AdcdivPos⟩
  else if idx = eadc0Module then ⟨clkClkdiv4, clkClkdiv4EadcdivMsk, clkClkdiv4EadcdivPos⟩
  else ⟨clkClkdiv0 + moduleClkdiv idx, moduleClkdivMsk idx <<< moduleClkdivPos idx,
    moduleClkdivPos idx⟩

def clkEnField (idx : U32) : ClkField :=
  ⟨clkSysclk0 + moduleApbclk idx, 1 <<< moduleIpEnPos idx, moduleIpEnPos idx⟩

def ClkField.bits (f : ClkField) (word : Nat) : U32 := if word = f.word then f.mask else 0

def clkModuleBits (idx : U32) (word : Nat) : U32 :=
  (clkSelField idx).bits word ||| (clkDivField idx).bits word ||| (clkEnField idx).bits word

/-- The getters return what was set, and no bit has changed that is not the module's. -/
def ModuleClockLaw (clk : ClkWords) (idx src div : U32) : Prop :=
  let set := clkSetModuleClock clk idx src div
  clkGetModuleClockSource set idx = some (src >>> (clkSelField idx).pos) ∧
    clkGetModuleClockDivider set idx = some (div >>> (clkDivField idx).pos) ∧
    ∀ word, set word &&& ~~~clkModuleBits idx word = clk word &&& ~~~clkModuleBits idx word

/-- For the modules with a case of their own, whose indices hold no masks, only zeros are set. A field
of another module is in one of the registers 0 to 4, and a divider in register 2 is the one that
register 3 has there already. -/
def ModuleClockKept (clk : ClkWords) (idx src div : U32) : Prop :=
  if idx = kpiModule ∨ idx = adcModule ∨ idx = eadc0Module then src = 0 ∧ div = 0
  else (moduleClkselMsk idx ≠ moduleNoMsk → moduleClksel idx < 5) ∧
    (moduleClkdivMsk idx ≠ moduleNoMsk → moduleClkdiv idx < 5 ∧
      (moduleClkdiv idx = 2 → clk (clkClkdiv0 + 3) &&& (clkDivField idx).mask = div))

section Fields

variable {clk : ClkWords} {word w pos : Nat} {mask value value' m own : U32}

theorem ClkWords.merge_self : clk.merge word mask value word = maskedWrite mask value (clk word) :=
  Function.update_self _ _ _

theorem ClkWords.merge_other (other : w ≠ word) : clk.merge word mask value w = clk w :=
  Function.update_of_ne other _ _

theorem ClkWords.merge_read (within : value &&& ~~~mask = 0) :
    clk.merge word mask value word &&& mask = value := by
  rw [merge_self]
  exact MaskedWrite.read_back within

theorem ClkWords.merge_frame {own : Nat → U32} (within : value &&& ~~~mask = 0)
    (inside : mask &&& ~~~own word = 0) :
    clk.merge word mask value w &&& ~~~own w = clk w &&& ~~~own w := by
  by_cases here : w = word
  · subst here
    rw [merge_self]
    exact MaskedWrite.and_outside within inside
  · rw [merge_other here]

theorem shift_back (within : value &&& ~~~(m <<< pos) = 0) : value >>> pos <<< pos = value := by
  apply BitVec.eq_of_getLsbD_eq
  intro i inside
  have here := congrArg (fun y => y.getLsbD i) within
  rw [BitVec.getLsbD_and, BitVec.getLsbD_not, BitVec.getLsbD_shiftLeft] at here
  rw [BitVec.getLsbD_shiftLeft, BitVec.getLsbD_ushiftRight]
  by_cases low : i < pos
  · simpa [inside, low] using here
  · simp [inside, low, Nat.add_sub_cancel' (Nat.le_of_not_lt low)]

theorem shift_inj (within : value &&& ~~~(m <<< pos) = 0)
    (within' : value' &&& ~~~(m <<< pos) = 0) : value >>> pos = value' >>> pos ↔ value = value' := by
  refine ⟨fun same => ?_, fun same => by rw [same]⟩
  rw [← shift_back within, same, shift_back within']

theorem shift_zero_iff (within : value &&& ~~~(m <<< pos) = 0) : 0 = value >>> pos ↔ value = 0 := by
  have zero : (0 : U32) &&& ~~~(m <<< pos) = 0 := BitVec.zero_and
  have shifted : (0 : U32) >>> pos = 0 := BitVec.zero_ushiftRight
  rw [eq_comm, ← shift_inj within zero, shifted]

end Fields

section Setter

variable {clk : ClkWords} {idx src div : U32}

theorem and_not_or {x y z : U32} (none : x &&& ~~~y = 0) : x &&& ~~~(y ||| z) = 0 := by
  rw [BitVec.not_or, ← BitVec.and_assoc, none]
  exact BitVec.zero_and

theorem ClkField.bits_self (f : ClkField) : f.bits f.word = f.mask := if_pos rfl

theorem clkSelField_own : (clkSelField idx).mask &&& ~~~clkModuleBits idx (clkSelField idx).word = 0 := by
  unfold clkModuleBits
  rw [ClkField.bits_self]
  exact and_not_or (and_not_or (BitVec.and_not_self _))

theorem clkDivField_own : (clkDivField idx).mask &&& ~~~clkModuleBits idx (clkDivField idx).word = 0 := by
  unfold clkModuleBits
  rw [ClkField.bits_self, BitVec.or_comm ((clkSelField idx).bits _)]
  exact and_not_or (and_not_or (BitVec.and_not_self _))

theorem clkSetModuleClock_general (kpi : idx ≠ kpiModule) (adc : idx ≠ adcModule)
    (eadc : idx ≠ eadc0Module) : clkSetModuleClock clk idx src div =
      let clk := if moduleClkdivMsk idx ≠ moduleNoMsk then
        clk.merge (clkDivField idx).word (clkDivField idx).mask div else clk
      if moduleClkselMsk idx ≠ moduleNoMsk then
        clk.merge (clkSelField idx).word (clkSelField idx).mask src else clk := by
  unfold clkSetModuleClock clkSelField clkDivField
  rw [if_neg kpi, if_neg adc, if_neg eadc, if_neg kpi, if_neg kpi, if_neg adc, if_neg eadc]

theorem clkSetModuleClock_frame (inSel : src &&& ~~~(clkSelField idx).mask = 0)
    (inDiv : div &&& ~~~(clkDivField idx).mask = 0) (word : Nat) :
    clkSetModuleClock clk idx src div word &&& ~~~clkModuleBits idx word =
      clk word &&& ~~~clkModuleBits idx word := by
  by_cases kpi : idx = kpiModule
  · subst kpi
    unfold clkSetModuleClock
    rw [if_pos rfl, ClkWords.merge_frame (by decide) (by decide),
      ClkWords.merge_frame (show src &&& ~~~clkClksel4KpiselMsk = 0 from inSel) (by decide),
      ClkWords.merge_frame (show div &&& ~~~clkClkdiv4KpidivMsk = 0 from inDiv) (by decide)]
  by_cases adc : idx = adcModule
  · subst adc
    unfold clkSetModuleClock
    rw [if_neg kpi, if_pos rfl, ClkWords.merge_frame (by decide) (by decide),
      ClkWords.merge_frame (show div &&& ~~~clkClkdiv4AdcdivMsk = 0 from inDiv) (by decide)]
  by_cases eadc : idx = eadc0Module
  · subst eadc
    unfold clkSetModuleClock
    rw [if_neg kpi, if_neg adc, if_pos rfl, ClkWords.merge_frame (by decide) (by decide),
      ClkWords.merge_frame (show div &&& ~~~clkClkdiv4EadcdivMsk = 0 from inDiv) (by decide)]
  · rw [clkSetModuleClock_general kpi adc eadc]
    dsimp only
    split_ifs
    · rw [ClkWords.merge_frame inSel clkSelField_own, ClkWords.merge_frame inDiv clkDivField_own]
    · rw [ClkWords.merge_frame inSel clkSelField_own]
    · rw [ClkWords.merge_frame inDiv clkDivField_own]
    · rfl

theorem getters_special (own : idx = kpiModule ∨ idx = adcModule ∨ idx = eadc0Module) :
    clkGetModuleClockSource clk idx = some 0 ∧ clkGetModuleClockDivider clk idx = some 0 := by
  rcases own with rfl | rfl | rfl <;> exact ⟨rfl, rfl⟩

theorem moduleClock_special (own : idx = kpiModule ∨ idx = adcModule ∨ idx = eadc0Module)
    (inSel : src &&& ~~~(clkSelField idx).mask = 0)
    (inDiv : div &&& ~~~(clkDivField idx).mask = 0) :
    ModuleClockLaw clk idx src div ↔ src = 0 ∧ div = 0 := by
  unfold ModuleClockLaw
  dsimp only
  rw [(getters_special own).1, (getters_special own).2, Option.some_inj, Option.some_inj]
  have zeros : (0 = src >>> (clkSelField idx).pos ↔ src = 0) ∧
      (0 = div >>> (clkDivField idx).pos ↔ div = 0) := by
    rcases own with rfl | rfl | rfl
    · exact ⟨shift_zero_iff (m := 0x1) inSel, shift_zero_iff (m := 0xff) inDiv⟩
    · exact ⟨shift_zero_iff (m := 0) inSel, shift_zero_iff (m := 0x1ffff) inDiv⟩
    · exact ⟨shift_zero_iff (m := 0) inSel, shift_zero_iff (m := 0xf) inDiv⟩
  rw [zeros.1, zeros.2, and_iff_left (clkSetModuleClock_frame inSel inDiv)]

theorem clkSelField_general (kpi : idx ≠ kpiModule) : clkSelField idx = ⟨clkClksel0 + moduleClksel idx,
    moduleClkselMsk idx <<< moduleClkselPos idx, moduleClkselPos idx⟩ := if_neg kpi

theorem clkDivField_general (kpi : idx ≠ kpiModule) (adc : idx ≠ adcModule)
    (eadc : idx ≠ eadc0Module) : clkDivField idx = ⟨clkClkdiv0 + moduleClkdiv idx,
      moduleClkdivMsk idx <<< moduleClkdivPos idx, moduleClkdivPos idx⟩ := by
  unfold clkDivField
  rw [if_neg kpi, if_neg adc, if_neg eadc]

theorem zero_of_no_mask {value m : U32} {pos : Nat} (none : m = moduleNoMsk)
    (within : value &&& ~~~(m <<< pos) = 0) : value = 0 := by
  have empty : m <<< pos = 0 := by
    rw [none]
    exact BitVec.zero_shiftLeft pos
  rw [empty] at within
  exact BitVec.and_allOnes.symm.trans within

theorem source_iff (kpi : idx ≠ kpiModule) (adc : idx ≠ adcModule) (eadc : idx ≠ eadc0Module)
    (inSel : src &&& ~~~(clkSelField idx).mask = 0) :
    clkGetModuleClockSource (clkSetModuleClock clk idx src div) idx =
        some (src >>> (clkSelField idx).pos) ↔
      (moduleClkselMsk idx ≠ moduleNoMsk → moduleClksel idx < 5) := by
  have value := clkSelField_general kpi
  rw [value] at inSel
  unfold clkGetModuleClockSource
  rw [value]
  by_cases some : moduleClkselMsk idx ≠ moduleNoMsk
  · rw [if_pos some]
    by_cases small : moduleClksel idx < 5
    · have entry : ∀ i < 5, selTbl[i]? = Option.some i := by decide
      have read : clkSetModuleClock clk idx src div (clkClksel0 + moduleClksel idx) &&&
          moduleClkselMsk idx <<< moduleClkselPos idx = src := by
        rw [clkSetModuleClock_general kpi adc eadc]
        dsimp only
        rw [if_pos some, value]
        exact ClkWords.merge_read inSel
      rw [entry _ small, Option.map_some]
      unfold ClkWords.field
      rw [read]
      exact iff_of_true rfl fun _ => small
    · rw [List.getElem?_eq_none (Nat.le_of_not_lt small)]
      exact iff_of_false (by simp) fun law => small (law some)
  · rw [if_neg some, zero_of_no_mask (not_not.mp some) inSel]
    have shifted : (0 : U32) >>> moduleClkselPos idx = 0 := BitVec.zero_ushiftRight
    rw [shifted]
    exact iff_of_true rfl fun wrong => absurd wrong some

theorem clkSetModuleClock_div (kpi : idx ≠ kpiModule) (adc : idx ≠ adcModule)
    (eadc : idx ≠ eadc0Module) (some : moduleClkdivMsk idx ≠ moduleNoMsk)
    (sel : moduleClkselMsk idx ≠ moduleNoMsk → moduleClksel idx < 5) (i : Nat) :
    clkSetModuleClock clk idx src div (clkClkdiv0 + i) =
      clk.merge (clkDivField idx).word (clkDivField idx).mask div (clkClkdiv0 + i) := by
  rw [clkSetModuleClock_general kpi adc eadc]
  dsimp only
  rw [if_pos some]
  split_ifs with selects
  · refine ClkWords.merge_other ?_
    have small := sel selects
    rw [clkSelField_general kpi]
    unfold clkClkdiv0 clkClksel0
    dsimp only
    omega
  · rfl

theorem divider_iff (kpi : idx ≠ kpiModule) (adc : idx ≠ adcModule) (eadc : idx ≠ eadc0Module)
    (inDiv : div &&& ~~~(clkDivField idx).mask = 0)
    (sel : moduleClkselMsk idx ≠ moduleNoMsk → moduleClksel idx < 5) :
    clkGetModuleClockDivider (clkSetModuleClock clk idx src div) idx =
        some (div >>> (clkDivField idx).pos) ↔
      (moduleClkdivMsk idx ≠ moduleNoMsk → moduleClkdiv idx < 5 ∧
        (moduleClkdiv idx = 2 → clk (clkClkdiv0 + 3) &&& (clkDivField idx).mask = div)) := by
  have value := clkDivField_general kpi adc eadc
  have write (some : moduleClkdivMsk idx ≠ moduleNoMsk) (i : Nat) :
      clkSetModuleClock clk idx src div (clkClkdiv0 + i) =
        clk.merge (clkDivField idx).word (clkDivField idx).mask div (clkClkdiv0 + i) :=
    clkSetModuleClock_div kpi adc eadc some sel i
  unfold clkGetModuleClockDivider
  rw [value] at inDiv write ⊢
  by_cases some : moduleClkdivMsk idx ≠ moduleNoMsk
  · rw [if_pos some, if_neg kpi, if_neg adc, if_neg eadc]
    dsimp only at inDiv write ⊢
    by_cases small : moduleClkdiv idx < 5
    · have entry : ∀ i < 5, divTbl[i]? = Option.some (if i = 2 then 3 else i) := by decide
      rw [entry _ small, Option.map_some, Option.some_inj]
      unfold ClkWords.field
      rw [write some]
      by_cases second : moduleClkdiv idx = 2
      · rw [if_pos second, second, ClkWords.merge_other (by decide), shift_inj ?_ inDiv]
        · exact ⟨fun same _ => ⟨by omega, fun _ => same⟩, fun law => (law some).2 rfl⟩
        · rw [BitVec.and_assoc, BitVec.and_not_self]
          exact BitVec.and_zero
      · rw [if_neg second, ClkWords.merge_read inDiv]
        exact iff_of_true rfl fun _ => ⟨small, fun wrong => absurd wrong second⟩
    · rw [List.getElem?_eq_none (Nat.le_of_not_lt small)]
      exact iff_of_false (by simp) fun law => small (law some).1
  · rw [if_neg some]
    dsimp only at inDiv ⊢
    rw [zero_of_no_mask (not_not.mp some) inDiv]
    have shifted : (0 : U32) >>> moduleClkdivPos idx = 0 := BitVec.zero_ushiftRight
    rw [shifted]
    exact iff_of_true rfl fun wrong => absurd wrong some

end Setter

/-- What was set for a module is read back exactly where its dividers are not those of the table's
slip, and its index has the masks that the getters ask for. -/
theorem module_clock_iff {clk : ClkWords} {idx src div : U32}
    (inSel : src &&& ~~~(clkSelField idx).mask = 0)
    (inDiv : div &&& ~~~(clkDivField idx).mask = 0) :
    ModuleClockLaw clk idx src div ↔ ModuleClockKept clk idx src div := by
  unfold ModuleClockKept
  by_cases own : idx = kpiModule ∨ idx = adcModule ∨ idx = eadc0Module
  · rw [if_pos own]
    exact moduleClock_special own inSel inDiv
  rw [if_neg own]
  obtain ⟨kpi, rest⟩ := not_or.mp own
  obtain ⟨adc, eadc⟩ := not_or.mp rest
  unfold ModuleClockLaw
  dsimp only
  rw [and_iff_left (clkSetModuleClock_frame inSel inDiv), source_iff kpi adc eadc inSel]
  exact and_congr_right fun sel => divider_iff kpi adc eadc inDiv sel

theorem canfd0_read_back : ModuleClockLaw (fun _ => 0xffffffff) 0x10601c08 0x10000 0x3 := by
  refine (module_clock_iff (by decide) (by decide)).mpr ?_
  unfold ModuleClockKept
  decide

/-- The keypad interface reads back as undivided, and so does the index 0x48f0bc10, which no module
has: its divider is in register 2. -/
theorem kpi_divider_lost :
    clkGetModuleClockDivider (clkSetModuleClock (fun _ => 0) kpiModule (0x1 <<< 30) (0x1 <<< 24))
      kpiModule = some 0 ∧
    ¬ModuleClockLaw (fun _ => 0) kpiModule (0x1 <<< 30) (0x1 <<< 24) ∧
    clkGetModuleClockDivider (clkSetModuleClock (fun _ => 0) 0x48f0bc10 0 1) 0x48f0bc10 = some 0 ∧
    ¬ModuleClockLaw (fun _ => 0) 0x48f0bc10 0 1 := by
  refine ⟨rfl, fun law => ?_, by decide, fun law => ?_⟩
  · exact absurd law.2.1 (by decide)
  · exact absurd law.2.1 (by decide)

end NuMakerMA35
