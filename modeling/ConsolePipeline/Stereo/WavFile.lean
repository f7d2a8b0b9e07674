import ConsolePipeline.Stereo.Word

namespace ConsolePipeline.Stereo

/-!
# Sound files

A WAV file of 16-bit stereo samples: a header of 44 bytes, then each word's left and right sample.
Numbers are stored with their low byte first.

* `wavHeader` — the header.
* `wavFile` — a whole file.
-/

/-- A 16-bit number, low byte first. -/
def littleEndian16 (n : UInt16) : List UInt8 :=
  [n.toUInt8, (n >>> 8).toUInt8]

/-- A 32-bit number, low byte first. -/
def littleEndian32 (n : UInt32) : List UInt8 :=
  [n.toUInt8, (n >>> 8).toUInt8, (n >>> 16).toUInt8, (n >>> 24).toUInt8]

/-- The bytes of an ASCII tag. -/
def tagBytes (s : String) : List UInt8 :=
  s.toList.map fun c => UInt8.ofNat c.toNat

/-- Bytes of one stereo word. -/
def wordBytes : UInt32 := 4

/-- Bytes of a header. -/
def headerBytes : UInt32 := 44

/-- The header of a file with `count` stereo words. -/
def wavHeader (sampleRate : UInt32) (count : Nat) : List UInt8 :=
  let dataBytes := wordBytes * UInt32.ofNat count
  tagBytes "RIFF" ++ littleEndian32 (headerBytes - 8 + dataBytes) ++ tagBytes "WAVE" ++
    tagBytes "fmt " ++ littleEndian32 16 ++ littleEndian16 1 ++ littleEndian16 2 ++
    littleEndian32 sampleRate ++ littleEndian32 (sampleRate * wordBytes) ++
    littleEndian16 wordBytes.toUInt16 ++ littleEndian16 16 ++
    tagBytes "data" ++ littleEndian32 dataBytes

/-- Append a word: the left sample is its low half. -/
def pushWord (out : ByteArray) (w : Word) : ByteArray :=
  (((out.push w.toUInt8).push (w >>> 8).toUInt8).push (w >>> 16).toUInt8).push (w >>> 24).toUInt8

/-- A file with the given words. -/
def wavFile (sampleRate : UInt32) (words : Array Word) : ByteArray :=
  words.foldl pushWord ⟨(wavHeader sampleRate words.size).toArray⟩

end ConsolePipeline.Stereo
