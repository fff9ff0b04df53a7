import BebasOs.Fat32.Space
import BebasOs.Fat32.Names
import BebasOs.Fat32.Crash
import BebasOs.Fat32.Commute
import BebasOs.Fat32.Refusal
import BebasOs.Fat32.Kind
import BebasOs.Fat32.MoveTree
import BebasOs.Memory.Leak
import BebasOs.Process.Contexts
import BebasOs.Process.Resources
import BebasOs.Driver.OnScreen
import BebasOs.Driver.LastRows
import BebasOs.Driver.Keyboard
import BebasOs.Fat32.NewFile
import BebasOs.Fat32.DeleteFile
import BebasOs.Fat32.Folder
import BebasOs.Fat32.FullDirectory
import BebasOs.Fat32.ReadChain
import BebasOs.Fat32.Duplicates
import BebasOs.Shell.DirectoryStack
import BebasOs.Fat32.BufferSize
import BebasOs.Process.Memory
import BebasOs.Process.Rollback
import BebasOs.Process.RoundRobin
import BebasOs.Driver.Undo
import BebasOs.Shell.Input
import BebasOs.Cpu.Preemption
import BebasOs.Shell.Rounds
import BebasOs.Shell.AllOrNothing
import BebasOs.Stdlib.Tokens
import BebasOs.Process.Query
import BebasOs.Shell.ProcessStatus
import BebasOs.Shell.Move
import BebasOs.Shell.PathLength
import BebasOs.Shell.Found
import BebasOs.Fat32.Refines
import BebasOs.Driver.Image
import BebasOs.Cpu.Gates
import BebasOs.Cpu.Pic
import BebasOs.Fat32.Inserter
import BebasOs.Process.Boot
import BebasOs.Shell.Sessions
