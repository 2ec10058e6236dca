import Pluto.Stream.File

/-!
# `mm_cache`, `mm_cache_simple`: the write cache in front of a stream

`CacheSimpleContext` is the context of a `FsCacheWriter` in simple mode: the stream, the buffer
`mpCache` with `mCacheSize` bytes, of which the first `mValidLen` wait to be written.

* `fileCacheWrite`   one write to the stream with the error bookkeeping;
* `fsCacheSimpleWrite`, `fsCacheSimpleSeek`, `fsCacheSimpleTell`, `fsCacheSimpleTruncate`,
  `fsCacheSimpleFlush`   the five functions of the `FsCacheWriter`;
* `CacheOp`, `CacheSimpleContext.apply`, `MmStreamInfo.apply`   one call on the cache, and the
                     same call on the stream without a cache.
-/

namespace Pluto
open Octets

/-! ## `mm_cache.c` -/

/-- one write; `-EIO` without a write once `EIO` was seen, and the callback from the twelfth
failure in a row on -/
def fileCacheWrite (s : MmStreamInfo) (buffer : Bytes) : Int × MmStreamInfo :=
  if s.mWriteErrNO = EIO then (- EIO, s)
  else
    let (totalWriten, errno, s') := mmWriteStreamFile s buffer
    if totalWriten ≠ buffer.length then
      let fire := decide (s'.mWriteErrCnt > 10) && s'.mCB
      (totalWriten, { s' with
        mWriteErrNO := errno
        mWriteErrCnt := s'.mWriteErrCnt + 1
        cbCalls := if fire then s'.cbCalls + 1 else s'.cbCalls })
    else (totalWriten, { s' with mWriteErrCnt := 0 })

/-! ## `mm_cache_simple.c` -/

structure CacheSimpleContext where
  mpStream : MmStreamInfo
  mpCache : Bytes
  mCacheSize : Nat
  mValidLen : Nat

/-- `mpCache` is what `posix_memalign` returned, with whatever bytes it holds -/
def createCacheSimple (s : MmStreamInfo) (mpCache : Bytes) (cacheSize : Int) :
    Option CacheSimpleContext :=
  if cacheSize ≤ 0 then none
  else some { mpStream := s, mpCache := mpCache, mCacheSize := cacheSize.toNat, mValidLen := 0 }

/-- `memcpy(dst + off, src, src.length)` inside one buffer -/
def memcpy (dst : Bytes) (off : Nat) (src : Bytes) : Bytes :=
  dst.take off ++ src ++ dst.drop (off + src.length)

def fsCacheSimpleFlush (c : CacheSimpleContext) : CacheSimpleContext :=
  if c.mValidLen > 0 then
    { c with
      mpStream := (fileCacheWrite c.mpStream (c.mpCache.take c.mValidLen)).2
      mValidLen := 0 }
  else c

/-- the part of `FsCacheSimpleWrite` behind the first `if`: `buf` is what is left to write -/
def fsCacheSimpleRest (c : CacheSimpleContext) (buf : Bytes) : CacheSimpleContext :=
  let size2 := buf.length / c.mCacheSize * c.mCacheSize
  let c1 := if buf.length ≥ c.mCacheSize then
      { c with mpStream := (fileCacheWrite c.mpStream (buf.take size2)).2 }
    else c
  let left := if buf.length ≥ c.mCacheSize then buf.drop size2 else buf
  if left.length > 0 then
    { c1 with mpCache := memcpy c1.mpCache 0 left, mValidLen := left.length }
  else c1

def fsCacheSimpleWrite (c : CacheSimpleContext) (buf : Bytes) : Int × CacheSimpleContext :=
  if buf.length = 0 then (-1, c)
  else if c.mValidLen ≥ c.mCacheSize then (-1, c)
  else if c.mValidLen > 0 then
    if c.mValidLen + buf.length ≤ c.mCacheSize then
      let c1 := { c with
        mpCache := memcpy c.mpCache c.mValidLen buf
        mValidLen := c.mValidLen + buf.length }
      let c2 := if c1.mValidLen = c1.mCacheSize then
          { c1 with
            mpStream := (fileCacheWrite c1.mpStream (c1.mpCache.take c1.mCacheSize)).2
            mValidLen := 0 }
        else c1
      (buf.length, c2)
    else
      let nSize0 := c.mCacheSize - c.mValidLen
      let mpCache := memcpy c.mpCache c.mValidLen (buf.take nSize0)
      let c1 := { c with
        mpCache := mpCache
        mpStream := (fileCacheWrite c.mpStream (mpCache.take c.mCacheSize)).2
        mValidLen := 0 }
      (buf.length, fsCacheSimpleRest c1 (buf.drop nSize0))
  else (buf.length, fsCacheSimpleRest c buf)

def fsCacheSimpleSeek (c : CacheSimpleContext) (offset : Int) (whence : Whence) :
    Int × CacheSimpleContext :=
  let c := fsCacheSimpleFlush c
  let r := mmSeekStreamFile c.mpStream offset whence
  (r.1, { c with mpStream := r.2 })

def fsCacheSimpleTell (c : CacheSimpleContext) : Int × CacheSimpleContext :=
  let c := fsCacheSimpleFlush c
  (mmTellStreamFile c.mpStream, c)

def fsCacheSimpleTruncate (c : CacheSimpleContext) (length : Int) : Int × CacheSimpleContext :=
  let c := fsCacheSimpleFlush c
  let r := mmTruncateStreamFile c.mpStream length
  (r.1, { c with mpStream := r.2 })

/-! ## calls on a writer -/

inductive CacheOp where
  | write (buf : Bytes)
  | seek (offset : Int) (whence : Whence)
  | tell
  | truncate (length : Int)
  | flush

/-- what the caller of one operation sees: the result and the file behind the writer.  After a
`write` the cache may hold bytes back, and nothing is observed. -/
inductive Seen where
  | nothing
  | result (ret : Int) (contents : Bytes)
deriving DecidableEq

def CacheSimpleContext.apply (c : CacheSimpleContext) : CacheOp → Seen × CacheSimpleContext
  | .write buf => (.nothing, (fsCacheSimpleWrite c buf).2)
  | .seek offset whence =>
    let r := fsCacheSimpleSeek c offset whence
    (.result r.1 r.2.mpStream.contents, r.2)
  | .tell =>
    let r := fsCacheSimpleTell c
    (.result r.1 r.2.mpStream.contents, r.2)
  | .truncate length =>
    let r := fsCacheSimpleTruncate c length
    (.result r.1 r.2.mpStream.contents, r.2)
  | .flush =>
    let c' := fsCacheSimpleFlush c
    (.result 0 c'.mpStream.contents, c')

/-- the same operation on the stream itself; there is nothing to flush -/
def MmStreamInfo.apply (s : MmStreamInfo) : CacheOp → Seen × MmStreamInfo
  | .write buf => (.nothing, (mmWriteStreamFile s buf).2.2)
  | .seek offset whence =>
    let r := mmSeekStreamFile s offset whence
    (.result r.1 r.2.contents, r.2)
  | .tell => (.result (mmTellStreamFile s) s.contents, s)
  | .truncate length =>
    let r := mmTruncateStreamFile s length
    (.result r.1 r.2.contents, r.2)
  | .flush => (.result 0 s.contents, s)

def CacheSimpleContext.run (c : CacheSimpleContext) : List CacheOp → List Seen × CacheSimpleContext
  | [] => ([], c)
  | op :: ops =>
    let rest := (c.apply op).2.run ops
    ((c.apply op).1 :: rest.1, rest.2)

def MmStreamInfo.run (s : MmStreamInfo) : List CacheOp → List Seen × MmStreamInfo
  | [] => ([], s)
  | op :: ops =>
    let rest := (s.apply op).2.run ops
    ((s.apply op).1 :: rest.1, rest.2)

end Pluto
