import OsdiKernel.Boot.Strings
import OsdiKernel.Kmem.Model

/-!
# Readers of the initial archive

All readers of the archive walk over its headers in the same way; they differ in
what they do at an entry.  What is printed is kept as the sequence of the calls
of the driver of the console.  The walk has no result where it would leave the
array for the name of a file.
-/

namespace OsdiKernel.Archive

open Boot (strcmp from_ align hexToUint textOf)

def ascii (text : List Char) : List UInt8 := text.map fun c => UInt8.ofNat c.toNat

/-! ## Headers -/

/-- `sizeof(struct cpio_newc_header)`. -/
def headerSize : Nat := 110

/-- The offsets of two fields of `struct cpio_newc_header`. -/
def cFilesize : Nat := 54
def cNamesize : Nat := 94

/-- The length of the array for the name of a file. -/
def filenameSize : Nat := 256

def trailerName : List UInt8 := ascii ['T', 'R', 'A', 'I', 'L', 'E', 'R', '!', '!', '!']

/-- A string literal. -/
def literal (text : List UInt8) : Nat → UInt8 := fun i => text.getD i 0

/-- `align(HEADER_SIZE + filenamesize, 4)`. -/
def dataOffset (filenamesize : BitVec 32) : BitVec 32 :=
  align (BitVec.ofNat 32 headerSize + filenamesize) 4

/-- The arrays `filename` and `header_magic`, with what is behind them. -/
structure Buffers where
  filename : Nat → UInt8
  headerMagic : Nat → UInt8

/-- A function that reads the archive, on states of type `σ`.  What it does at an
entry depends on the address of the header, `filenamesize` and `filename`; it
returns there or goes on to the next header. -/
structure Reader (σ ρ : Type) where
  memory : σ → Nat → UInt8
  entry : Nat → BitVec 32 → (Nat → UInt8) → σ → Option (σ × Option ρ)
  trailer : σ → Option (σ × ρ)
  invalid : (Nat → UInt8) → σ → Option (σ × ρ)

/-- The loop over the headers. -/
def Reader.loop {σ ρ : Type} (reader : Reader σ ρ) (magic : Nat → UInt8) :
    Nat → Nat → Buffers → σ → Option (σ × ρ)
  | 0, _, _, _ => none
  | fuel + 1, header, buffers, s => do
      let m := reader.memory s
      let headerMagic := storeLoop buffers.headerMagic 0 (from_ m header) 6
      if (← strcmp magic headerMagic) = 0 then
        let filenamesize := hexToUint (from_ m (header + cNamesize)) 8
        if filenameSize < filenamesize.toNat then none
        let filename := storeLoop buffers.filename 0 (from_ m (header + headerSize)) filenamesize.toNat
        if (← strcmp filename (literal trailerName)) = 0 then reader.trailer s
        else
          let filesize := hexToUint (from_ m (header + cFilesize)) 8
          match ← reader.entry header filenamesize filename s with
          | (s, some result) => return (s, result)
          | (s, none) =>
              let filenamesize := dataOffset filenamesize - BitVec.ofNat 32 headerSize
              let filesize := align filesize 4
              reader.loop magic fuel (header + headerSize + filenamesize.toNat + filesize.toNat)
                ⟨filename, headerMagic⟩ s
      else reader.invalid headerMagic s

/-! ## The console -/

/-- A call of `uart_puts` with a string, or of `uart_putc`. -/
inductive Output where
  | puts (text : List UInt8)
  | putc (ch : UInt8)
  deriving DecidableEq

structure Console where
  memory : Nat → UInt8
  output : List Output

def uartPuts (c : Console) (str : Nat → UInt8) : Option Console :=
  (textOf str).map fun text => { c with output := c.output ++ [.puts text] }

/-- `uart_puts` of a string literal. -/
def Console.print (c : Console) (text : List UInt8) : Console :=
  { c with output := c.output ++ [.puts text] }

/-- The loop that prints the contents of a file. -/
def putDataLoop (c : Console) (fileAddr : Nat) : Nat → Console
  | 0 => c
  | left + 1 =>
      putDataLoop { c with output := c.output ++ [.putc (c.memory fileAddr)] } (fileAddr + 1) left

def newline : List UInt8 := ascii ['\r', '\n']
def noSuchFile : List UInt8 := ascii (String.toList ":  No such file or directory\r\n")
def invalidHeader : List UInt8 := ascii (String.toList "Invalid cpio header\r\n")
def invalidHeaderColon : List UInt8 := ascii (String.toList "Invalid cpio header: ")

/-! ## The readers -/

/-- The common part of the functions that look for a file: what they do at the
first entry with its name, and what they return otherwise. -/
def search {ρ : Type} (targetFile : Nat → UInt8)
    (found : Nat → BitVec 32 → Console → Console × ρ) (missing : ρ) : Reader Console ρ where
  memory c := c.memory
  entry header filenamesize filename c := do
    if (← strcmp filename targetFile) = 0 then
      let (c, result) := found header filenamesize c
      return (c, some result)
    else return (c, none)
  trailer c := do
    let c ← uartPuts c targetFile
    return (c.print noSuchFile, missing)
  invalid headerMagic c := do
    let c ← uartPuts (c.print invalidHeaderColon) headerMagic
    return (c.print newline, missing)

def filesizeAt (c : Console) (header : Nat) : BitVec 32 := hexToUint (from_ c.memory (header + cFilesize)) 8

def cpioList : Reader Console Unit where
  memory c := c.memory
  entry _ _ filename c := do
    let c ← uartPuts c filename
    return (c.print newline, none)
  trailer c := some (c, ())
  invalid _ c := some (c.print invalidHeader, ())

def cpioCat (targetFile : Nat → UInt8) : Reader Console Unit :=
  search targetFile (fun header filenamesize c =>
    ((putDataLoop c (header + (dataOffset filenamesize).toNat) (filesizeAt c header).toNat).print newline,
      ())) ()

/-- A null address is none.  There is no return value where the function ends
without a return statement. -/
def cpioGetExec (targetFile : Nat → UInt8) (execAddr : Option Nat) : Reader Console (Option Nat) :=
  search targetFile (fun header filenamesize c =>
    let fileAddr := header + (dataOffset filenamesize).toNat
    match execAddr with
    | some execAddr =>
        ({ c with memory := copyLoop c.memory execAddr fileAddr (filesizeAt c header).toNat },
          some fileAddr)
    | none => (c, some fileAddr)) none

def cpioGetFileSize (targetFile : Nat → UInt8) : Reader Console (BitVec 32) :=
  search targetFile (fun header _ c => (c, filesizeAt c header)) 0

/-! ## Execution -/

/-- The part of `_exec` before it creates the thread, without its messages.  Each
reader has its own buffers.  The result has the address of the program, if there
is one. -/
def exec (magic : Nat → UInt8) (buffers execBuffers : Buffers) (fuel cpioAddr : Nat) (h : Kmem.Heap)
    (c : Console) (filename : Nat → UInt8) : Option (Kmem.Heap × Console × Option Nat) := do
  let (c, execSize) ← (cpioGetFileSize filename).loop magic fuel cpioAddr buffers c
  if execSize = 0 then return (h, c, none)
  let (h, execAddr) := Kmem.alloc h execSize.toNat
  if execAddr = 0 then return (h, c, none)
  let (c, _) ← (cpioGetExec filename (some execAddr)).loop magic fuel cpioAddr execBuffers c
  return (h, c, some execAddr)

end OsdiKernel.Archive
