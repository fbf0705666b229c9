/-
The settings of a script engine: the comment marker, the line separator
and the file suffix, with the faults that make settings unusable.
-/
import LineScript.Text.Basic

set_option autoImplicit false

namespace LineScript

/-- What an engine takes as given about scripts. -/
structure Settings where
  /-- What starts a comment. -/
  marker : Text := ['#']
  /-- What separates lines; `none` leaves the choice between the two
  usual separators to each script. -/
  separator : Option Text := none
  /-- The suffix that makes an input the path of a script. -/
  suffix : Text := ['.', 'l', 's']
  deriving DecidableEq

/-- Why settings are refused. -/
inductive SettingsFault where
  | emptyMarker
  | labelMarker
  | emptySeparator
  | emptySuffix
  deriving DecidableEq, Repr

/-- The wording of a fault in settings. -/
def SettingsFault.message : SettingsFault → String
  | .emptyMarker => "comment marker must not be empty"
  | .labelMarker => "comment marker must not start with the label marker ':'"
  | .emptySeparator => "explicit line separator must not be empty"
  | .emptySuffix => "script file extension must not be empty"

namespace Settings

instance : Inhabited Settings := ⟨{}⟩

/-- The first fault of some settings, if they have one. -/
def fault? (settings : Settings) : Option SettingsFault :=
  if settings.marker.isEmpty then some .emptyMarker
  else if settings.marker.head? = some ':' then some .labelMarker
  else if settings.separator = some [] then some .emptySeparator
  else if settings.suffix.isEmpty then some .emptySuffix
  else none

/-- The separator for scripts that leave it open: a carriage return with
a line feed if that pair occurs anywhere, a line feed otherwise. -/
def detectSeparator (source : Text) : Text :=
  if Text.contains source ['\r', '\n'] then ['\r', '\n'] else ['\n']

/-- The separator for a script. -/
def separatorFor (settings : Settings) (source : Text) : Text :=
  settings.separator.getD (detectSeparator source)

-- ====================================================== small lemmas

theorem fault?_eq_none_iff {settings : Settings} :
    settings.fault? = none
      ↔ settings.marker ≠ [] ∧ settings.marker.head? ≠ some ':'
        ∧ settings.separator ≠ some []
        ∧ settings.suffix ≠ [] := by
  unfold fault?
  simp only [List.isEmpty_iff]
  split
  next h => simp [h]
  next hmarker =>
    split
    next h => simp [h]
    next hhead =>
      split
      next h => simp [h]
      next hseparator =>
        split
        next h => simp [h]
        next hsuffix => simp [hmarker, hhead, hseparator, hsuffix]

end Settings

end LineScript
