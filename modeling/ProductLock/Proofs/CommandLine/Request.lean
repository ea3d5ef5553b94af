import ProductLock.CommandLine.Request

namespace ProductLock.CommandLine

/-- The same request, with the lockfile to be written. -/
def Request.writing : Request → Request
  | .resolve o => .resolve { o with writeLocks := true }
  | r => r

theorem readWords_write_locks (rest : List String) :
    readWords resolveSwitches ("--write-locks" :: rest) =
      (readWords resolveSwitches rest).map (·.addOptions [(.writeLocks, "")]) := by
  have hnamed : readNamed resolveSwitches "--write-locks".toList =
      some ⟨[(.writeLocks, "")], none⟩ := rfl
  rw [readWords, if_neg (by decide), if_pos (by decide), hnamed]

section
variable {α : Type} [DecidableEq α] {w : Words α} {meaning other : α} {value : String}

theorem has_addOption (h : other ≠ meaning) :
    (w.addOptions [(other, value)]).has meaning = w.has meaning := by
  simp [Words.has, Words.addOptions, h]

theorem values_addOption (h : other ≠ meaning) :
    (w.addOptions [(other, value)]).values meaning = w.values meaning := by
  simp [Words.values, Words.addOptions, h]

end

theorem resolveRequest_write_locks {environment : Option String} {flag : Bool}
    (h : flagOfEnvironment environment = some flag) (w : Words ResolveSwitch) :
    resolveRequest environment (w.addOptions [(.writeLocks, "")]) =
      (resolveRequest environment w).map Request.writing := by
  have hothers : (w.addOptions [(.writeLocks, "")]).others = w.others := rfl
  have hwrite : (w.addOptions [(.writeLocks, "")]).has .writeLocks = true := rfl
  simp (disch := decide) only [resolveRequest, has_addOption, Words.value?, values_addOption, hothers,
    hwrite, h]
  cases w.has .help with
  | true => rfl
  | false =>
    rcases w.others with _ | ⟨config, _ | ⟨_, _⟩⟩
    · rfl
    · cases w.has .writeLocks <;> rfl
    · rfl

/-- The word for writing lockfiles changes nothing but that. -/
theorem ofArguments_write_locks {environment : Option String} {flag : Bool}
    (h : flagOfEnvironment environment = some flag) (rest : List String) :
    Request.ofArguments ("resolve" :: "--write-locks" :: rest) environment =
      (Request.ofArguments ("resolve" :: rest) environment).map Request.writing := by
  change (readWords resolveSwitches ("--write-locks" :: rest)).bind (resolveRequest environment) =
    ((readWords resolveSwitches rest).bind (resolveRequest environment)).map Request.writing
  rw [readWords_write_locks]
  cases readWords resolveSwitches rest with
  | none => rfl
  | some w => exact resolveRequest_write_locks h w

end ProductLock.CommandLine
