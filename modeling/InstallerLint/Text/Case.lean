import InstallerLint.Text.Ranges

/-!
# Letter case

One-to-one case mappings and the orbits of simple case folding, Unicode 15.0.

**Tables.**  An entry `lo:hi:step:shift` moves every `step`-th character from `lo` to `hi` by
`shift`.  In the fold table a character goes to the next one of its orbit, the last to the
first, so following it from any member visits all characters that differ only in case.
-/

namespace InstallerLint
namespace Case

/-- One run of a case table. -/
structure Run where
  /-- First character. -/
  lo : Nat
  /-- Last character. -/
  hi : Nat
  step : Nat
  shift : Int
  deriving Repr

/-- Reads a signed hexadecimal number. -/
def signed : List Char → Int
  | '-' :: cs => -(Ranges.hex cs : Int)
  | '+' :: cs => Ranges.hex cs
  | cs => Ranges.hex cs

/-- Reads one entry of a table. -/
def Run.ofChars (cs : List Char) : Option Run :=
  match cs.splitOn ':' with
  | [lo, hi, step, shift] => some ⟨Ranges.hex lo, Ranges.hex hi, Ranges.hex step, signed shift⟩
  | _ => none

/-- Reads the written form of a table. -/
def runs (s : String) : List Run := (Ranges.tokens s).filterMap Run.ofChars

/-- Whether a run moves the code point. -/
def Run.moves (r : Run) (n : Nat) : Bool :=
  r.lo ≤ n && n ≤ r.hi && (n - r.lo) % r.step == 0

/-- Where a table sends a character. -/
def follow (table : List Run) (c : Char) : Char :=
  match table.find? (·.moves c.toNat) with
  | some r => Char.ofNat (c.toNat + r.shift).toNat
  | none => c

/-- Mapping to lower case. -/
def lowerRuns : List Run := runs
  "41:5a:1:+20 c0:d6:1:+20 d8:de:1:+20 100:12e:2:+1 130:130:2:-c7 132:136:2:+1 139:147:2:+1
    14a:176:2:+1 178:178:2:-79 179:17d:2:+1 181:181:2:+d2 182:184:2:+1 186:186:2:+ce
    187:187:2:+1 189:18a:1:+cd 18b:18b:2:+1 18e:18e:2:+4f 18f:18f:2:+ca 190:190:2:+cb
    191:191:2:+1 193:193:2:+cd 194:194:2:+cf 196:196:2:+d3 197:197:2:+d1 198:198:2:+1
    19c:19c:2:+d3 19d:19d:2:+d5 19f:19f:2:+d6 1a0:1a4:2:+1 1a6:1a6:2:+da 1a7:1a7:2:+1
    1a9:1a9:2:+da 1ac:1ac:2:+1 1ae:1ae:2:+da 1af:1af:2:+1 1b1:1b2:1:+d9 1b3:1b5:2:+1
    1b7:1b7:2:+db 1b8:1b8:2:+1 1bc:1bc:2:+1 1c4:1c4:2:+2 1c5:1c5:2:+1 1c7:1c7:2:+2
    1c8:1c8:2:+1 1ca:1ca:2:+2 1cb:1db:2:+1 1de:1ee:2:+1 1f1:1f1:2:+2 1f2:1f4:2:+1
    1f6:1f6:2:-61 1f7:1f7:2:-38 1f8:21e:2:+1 220:220:2:-82 222:232:2:+1 23a:23a:2:+2a2b
    23b:23b:2:+1 23d:23d:2:-a3 23e:23e:2:+2a28 241:241:2:+1 243:243:2:-c3 244:244:2:+45
    245:245:2:+47 246:24e:2:+1 370:372:2:+1 376:376:2:+1 37f:37f:2:+74 386:386:2:+26
    388:38a:1:+25 38c:38c:2:+40 38e:38f:1:+3f 391:3a1:1:+20 3a3:3ab:1:+20 3cf:3cf:2:+8
    3d8:3ee:2:+1 3f4:3f4:2:-3c 3f7:3f7:2:+1 3f9:3f9:2:-7 3fa:3fa:2:+1 3fd:3ff:1:-82
    400:40f:1:+50 410:42f:1:+20 460:480:2:+1 48a:4be:2:+1 4c0:4c0:2:+f 4c1:4cd:2:+1
    4d0:52e:2:+1 531:556:1:+30 10a0:10c5:1:+1c60 10c7:10c7:2:+1c60 10cd:10cd:2:+1c60
    13a0:13ef:1:+97d0 13f0:13f5:1:+8 1c90:1cba:1:-bc0 1cbd:1cbf:1:-bc0 1e00:1e94:2:+1
    1e9e:1e9e:2:-1dbf 1ea0:1efe:2:+1 1f08:1f0f:1:-8 1f18:1f1d:1:-8 1f28:1f2f:1:-8
    1f38:1f3f:1:-8 1f48:1f4d:1:-8 1f59:1f5f:2:-8 1f68:1f6f:1:-8 1f88:1f8f:1:-8
    1f98:1f9f:1:-8 1fa8:1faf:1:-8 1fb8:1fb9:1:-8 1fba:1fbb:1:-4a 1fbc:1fbc:2:-9
    1fc8:1fcb:1:-56 1fcc:1fcc:2:-9 1fd8:1fd9:1:-8 1fda:1fdb:1:-64 1fe8:1fe9:1:-8
    1fea:1feb:1:-70 1fec:1fec:2:-7 1ff8:1ff9:1:-80 1ffa:1ffb:1:-7e 1ffc:1ffc:2:-9
    2126:2126:2:-1d5d 212a:212a:2:-20bf 212b:212b:2:-2046 2132:2132:2:+1c 2160:216f:1:+10
    2183:2183:2:+1 24b6:24cf:1:+1a 2c00:2c2f:1:+30 2c60:2c60:2:+1 2c62:2c62:2:-29f7
    2c63:2c63:2:-ee6 2c64:2c64:2:-29e7 2c67:2c6b:2:+1 2c6d:2c6d:2:-2a1c 2c6e:2c6e:2:-29fd
    2c6f:2c6f:2:-2a1f 2c70:2c70:2:-2a1e 2c72:2c72:2:+1 2c75:2c75:2:+1 2c7e:2c7f:1:-2a3f
    2c80:2ce2:2:+1 2ceb:2ced:2:+1 2cf2:2cf2:2:+1 a640:a66c:2:+1 a680:a69a:2:+1
    a722:a72e:2:+1 a732:a76e:2:+1 a779:a77b:2:+1 a77d:a77d:2:-8a04 a77e:a786:2:+1
    a78b:a78b:2:+1 a78d:a78d:2:-a528 a790:a792:2:+1 a796:a7a8:2:+1 a7aa:a7aa:2:-a544
    a7ab:a7ab:2:-a54f a7ac:a7ac:2:-a54b a7ad:a7ad:2:-a541 a7ae:a7ae:2:-a544
    a7b0:a7b0:2:-a512 a7b1:a7b1:2:-a52a a7b2:a7b2:2:-a515 a7b3:a7b3:2:+3a0 a7b4:a7c2:2:+1
    a7c4:a7c4:2:-30 a7c5:a7c5:2:-a543 a7c6:a7c6:2:-8a38 a7c7:a7c9:2:+1 a7d0:a7d0:2:+1
    a7d6:a7d8:2:+1 a7f5:a7f5:2:+1 ff21:ff3a:1:+20 10400:10427:1:+28 104b0:104d3:1:+28
    10570:1057a:1:+27 1057c:1058a:1:+27 1058c:10592:1:+27 10594:10595:1:+27
    10c80:10cb2:1:+40 118a0:118bf:1:+20 16e40:16e5f:1:+20 1e900:1e921:1:+22"

/-- Mapping to upper case. -/
def upperRuns : List Run := runs
  "61:7a:1:-20 b5:b5:2:+2e7 e0:f6:1:-20 f8:fe:1:-20 ff:ff:2:+79 101:12f:2:-1 131:131:2:-e8
    133:137:2:-1 13a:148:2:-1 14b:177:2:-1 17a:17e:2:-1 17f:17f:2:-12c 180:180:2:+c3
    183:185:2:-1 188:188:2:-1 18c:18c:2:-1 192:192:2:-1 195:195:2:+61 199:199:2:-1
    19a:19a:2:+a3 19e:19e:2:+82 1a1:1a5:2:-1 1a8:1a8:2:-1 1ad:1ad:2:-1 1b0:1b0:2:-1
    1b4:1b6:2:-1 1b9:1b9:2:-1 1bd:1bd:2:-1 1bf:1bf:2:+38 1c5:1c5:2:-1 1c6:1c6:2:-2
    1c8:1c8:2:-1 1c9:1c9:2:-2 1cb:1cb:2:-1 1cc:1cc:2:-2 1ce:1dc:2:-1 1dd:1dd:2:-4f
    1df:1ef:2:-1 1f2:1f2:2:-1 1f3:1f3:2:-2 1f5:1f5:2:-1 1f9:21f:2:-1 223:233:2:-1
    23c:23c:2:-1 23f:240:1:+2a3f 242:242:2:-1 247:24f:2:-1 250:250:2:+2a1f 251:251:2:+2a1c
    252:252:2:+2a1e 253:253:2:-d2 254:254:2:-ce 256:257:1:-cd 259:259:2:-ca 25b:25b:2:-cb
    25c:25c:2:+a54f 260:260:2:-cd 261:261:2:+a54b 263:263:2:-cf 265:265:2:+a528
    266:266:2:+a544 268:268:2:-d1 269:269:2:-d3 26a:26a:2:+a544 26b:26b:2:+29f7
    26c:26c:2:+a541 26f:26f:2:-d3 271:271:2:+29fd 272:272:2:-d5 275:275:2:-d6
    27d:27d:2:+29e7 280:280:2:-da 282:282:2:+a543 283:283:2:-da 287:287:2:+a52a
    288:288:2:-da 289:289:2:-45 28a:28b:1:-d9 28c:28c:2:-47 292:292:2:-db 29d:29d:2:+a515
    29e:29e:2:+a512 345:345:2:+54 371:373:2:-1 377:377:2:-1 37b:37d:1:+82 3ac:3ac:2:-26
    3ad:3af:1:-25 3b1:3c1:1:-20 3c2:3c2:2:-1f 3c3:3cb:1:-20 3cc:3cc:2:-40 3cd:3ce:1:-3f
    3d0:3d0:2:-3e 3d1:3d1:2:-39 3d5:3d5:2:-2f 3d6:3d6:2:-36 3d7:3d7:2:-8 3d9:3ef:2:-1
    3f0:3f0:2:-56 3f1:3f1:2:-50 3f2:3f2:2:+7 3f3:3f3:2:-74 3f5:3f5:2:-60 3f8:3f8:2:-1
    3fb:3fb:2:-1 430:44f:1:-20 450:45f:1:-50 461:481:2:-1 48b:4bf:2:-1 4c2:4ce:2:-1
    4cf:4cf:2:-f 4d1:52f:2:-1 561:586:1:-30 10d0:10fa:1:+bc0 10fd:10ff:1:+bc0 13f8:13fd:1:-8
    1c80:1c80:2:-186e 1c81:1c81:2:-186d 1c82:1c82:2:-1864 1c83:1c84:1:-1862
    1c85:1c85:2:-1863 1c86:1c86:2:-185c 1c87:1c87:2:-1825 1c88:1c88:2:+89c2
    1d79:1d79:2:+8a04 1d7d:1d7d:2:+ee6 1d8e:1d8e:2:+8a38 1e01:1e95:2:-1 1e9b:1e9b:2:-3b
    1ea1:1eff:2:-1 1f00:1f07:1:+8 1f10:1f15:1:+8 1f20:1f27:1:+8 1f30:1f37:1:+8
    1f40:1f45:1:+8 1f51:1f57:2:+8 1f60:1f67:1:+8 1f70:1f71:1:+4a 1f72:1f75:1:+56
    1f76:1f77:1:+64 1f78:1f79:1:+80 1f7a:1f7b:1:+70 1f7c:1f7d:1:+7e 1f80:1f87:1:+8
    1f90:1f97:1:+8 1fa0:1fa7:1:+8 1fb0:1fb1:1:+8 1fb3:1fb3:2:+9 1fbe:1fbe:2:-1c25
    1fc3:1fc3:2:+9 1fd0:1fd1:1:+8 1fe0:1fe1:1:+8 1fe5:1fe5:2:+7 1ff3:1ff3:2:+9
    214e:214e:2:-1c 2170:217f:1:-10 2184:2184:2:-1 24d0:24e9:1:-1a 2c30:2c5f:1:-30
    2c61:2c61:2:-1 2c65:2c65:2:-2a2b 2c66:2c66:2:-2a28 2c68:2c6c:2:-1 2c73:2c73:2:-1
    2c76:2c76:2:-1 2c81:2ce3:2:-1 2cec:2cee:2:-1 2cf3:2cf3:2:-1 2d00:2d25:1:-1c60
    2d27:2d27:2:-1c60 2d2d:2d2d:2:-1c60 a641:a66d:2:-1 a681:a69b:2:-1 a723:a72f:2:-1
    a733:a76f:2:-1 a77a:a77c:2:-1 a77f:a787:2:-1 a78c:a78c:2:-1 a791:a793:2:-1
    a794:a794:2:+30 a797:a7a9:2:-1 a7b5:a7c3:2:-1 a7c8:a7ca:2:-1 a7d1:a7d1:2:-1
    a7d7:a7d9:2:-1 a7f6:a7f6:2:-1 ab53:ab53:2:-3a0 ab70:abbf:1:-97d0 ff41:ff5a:1:-20
    10428:1044f:1:-28 104d8:104fb:1:-28 10597:105a1:1:-27 105a3:105b1:1:-27
    105b3:105b9:1:-27 105bb:105bc:1:-27 10cc0:10cf2:1:-40 118c0:118df:1:-20
    16e60:16e7f:1:-20 1e922:1e943:1:-22"

/-- The runs of the fold table whose orbits hold an ASCII letter. -/
def letterRuns : List Run := [
  ⟨0x41, 0x5A, 1, 0x20⟩, ⟨0x61, 0x6A, 1, -0x20⟩, ⟨0x6B, 0x6B, 2, 0x20BF⟩, ⟨0x6C, 0x72, 1, -0x20⟩,
  ⟨0x73, 0x73, 2, 0x10C⟩, ⟨0x74, 0x7A, 1, -0x20⟩, ⟨0x17F, 0x17F, 2, -0x12C⟩,
  ⟨0x212A, 0x212A, 2, -0x20DF⟩]

/-- The next character of the folding orbit. -/
def foldRuns : List Run := letterRuns ++ runs
  "b5:b5:2:+2e7 c0:d6:1:+20 d8:de:1:+20 df:df:2:+1dbf e0:e4:1:-20 e5:e5:2:+2046 e6:f6:1:-20
    f8:fe:1:-20 ff:ff:2:+79 100:12e:2:+1 101:12f:2:-1 132:136:2:+1 133:137:2:-1 139:147:2:+1
    13a:148:2:-1 14a:176:2:+1 14b:177:2:-1 178:178:2:-79 179:17d:2:+1 17a:17e:2:-1 180:180:2:+c3
    181:181:2:+d2 182:184:2:+1 183:185:2:-1 186:186:2:+ce 187:187:2:+1 188:188:2:-1
    189:18a:1:+cd 18b:18b:2:+1 18c:18c:2:-1 18e:18e:2:+4f 18f:18f:2:+ca 190:190:2:+cb
    191:191:2:+1 192:192:2:-1 193:193:2:+cd 194:194:2:+cf 195:195:2:+61 196:196:2:+d3
    197:197:2:+d1 198:198:2:+1 199:199:2:-1 19a:19a:2:+a3 19c:19c:2:+d3 19d:19d:2:+d5
    19e:19e:2:+82 19f:19f:2:+d6 1a0:1a4:2:+1 1a1:1a5:2:-1 1a6:1a6:2:+da 1a7:1a7:2:+1
    1a8:1a8:2:-1 1a9:1a9:2:+da 1ac:1ac:2:+1 1ad:1ad:2:-1 1ae:1ae:2:+da 1af:1af:2:+1 1b0:1b0:2:-1
    1b1:1b2:1:+d9 1b3:1b5:2:+1 1b4:1b6:2:-1 1b7:1b7:2:+db 1b8:1b8:2:+1 1b9:1b9:2:-1 1bc:1bc:2:+1
    1bd:1bd:2:-1 1bf:1bf:2:+38 1c4:1c5:1:+1 1c6:1c6:2:-2 1c7:1c8:1:+1 1c9:1c9:2:-2 1ca:1cb:1:+1
    1cc:1cc:2:-2 1cd:1db:2:+1 1ce:1dc:2:-1 1dd:1dd:2:-4f 1de:1ee:2:+1 1df:1ef:2:-1 1f1:1f2:1:+1
    1f3:1f3:2:-2 1f4:1f4:2:+1 1f5:1f5:2:-1 1f6:1f6:2:-61 1f7:1f7:2:-38 1f8:21e:2:+1 1f9:21f:2:-1
    220:220:2:-82 222:232:2:+1 223:233:2:-1 23a:23a:2:+2a2b 23b:23b:2:+1 23c:23c:2:-1
    23d:23d:2:-a3 23e:23e:2:+2a28 23f:240:1:+2a3f 241:241:2:+1 242:242:2:-1 243:243:2:-c3
    244:244:2:+45 245:245:2:+47 246:24e:2:+1 247:24f:2:-1 250:250:2:+2a1f 251:251:2:+2a1c
    252:252:2:+2a1e 253:253:2:-d2 254:254:2:-ce 256:257:1:-cd 259:259:2:-ca 25b:25b:2:-cb
    25c:25c:2:+a54f 260:260:2:-cd 261:261:2:+a54b 263:263:2:-cf 265:265:2:+a528 266:266:2:+a544
    268:268:2:-d1 269:269:2:-d3 26a:26a:2:+a544 26b:26b:2:+29f7 26c:26c:2:+a541 26f:26f:2:-d3
    271:271:2:+29fd 272:272:2:-d5 275:275:2:-d6 27d:27d:2:+29e7 280:280:2:-da 282:282:2:+a543
    283:283:2:-da 287:287:2:+a52a 288:288:2:-da 289:289:2:-45 28a:28b:1:-d9 28c:28c:2:-47
    292:292:2:-db 29d:29d:2:+a515 29e:29e:2:+a512 345:345:2:+54 370:372:2:+1 371:373:2:-1
    376:376:2:+1 377:377:2:-1 37b:37d:1:+82 37f:37f:2:+74 386:386:2:+26 388:38a:1:+25
    38c:38c:2:+40 38e:38f:1:+3f 391:3a1:1:+20 3a3:3a3:2:+1f 3a4:3ab:1:+20 3ac:3ac:2:-26
    3ad:3af:1:-25 3b1:3b1:2:-20 3b2:3b2:2:+1e 3b3:3b4:1:-20 3b5:3b5:2:+40 3b6:3b7:1:-20
    3b8:3b8:2:+19 3b9:3b9:2:+1c05 3ba:3ba:2:+36 3bb:3bb:2:-20 3bc:3bc:2:-307 3bd:3bf:1:-20
    3c0:3c0:2:+16 3c1:3c1:2:+30 3c2:3c2:2:+1 3c3:3c5:1:-20 3c6:3c6:2:+f 3c7:3c8:1:-20
    3c9:3c9:2:+1d5d 3ca:3cb:1:-20 3cc:3cc:2:-40 3cd:3ce:1:-3f 3cf:3cf:2:+8 3d0:3d0:2:-3e
    3d1:3d1:2:+23 3d5:3d5:2:-2f 3d6:3d6:2:-36 3d7:3d7:2:-8 3d8:3ee:2:+1 3d9:3ef:2:-1
    3f0:3f0:2:-56 3f1:3f1:2:-50 3f2:3f2:2:+7 3f3:3f3:2:-74 3f4:3f4:2:-5c 3f5:3f5:2:-60
    3f7:3f7:2:+1 3f8:3f8:2:-1 3f9:3f9:2:-7 3fa:3fa:2:+1 3fb:3fb:2:-1 3fd:3ff:1:-82 400:40f:1:+50
    410:42f:1:+20 430:431:1:-20 432:432:2:+184e 433:433:2:-20 434:434:2:+184d 435:43d:1:-20
    43e:43e:2:+1844 43f:440:1:-20 441:442:1:+1842 443:449:1:-20 44a:44a:2:+183c 44b:44f:1:-20
    450:45f:1:-50 460:480:2:+1 461:461:2:-1 463:463:2:+1824 465:481:2:-1 48a:4be:2:+1
    48b:4bf:2:-1 4c0:4c0:2:+f 4c1:4cd:2:+1 4c2:4ce:2:-1 4cf:4cf:2:-f 4d0:52e:2:+1 4d1:52f:2:-1
    531:556:1:+30 561:586:1:-30 10a0:10c5:1:+1c60 10c7:10c7:2:+1c60 10cd:10cd:2:+1c60
    10d0:10fa:1:+bc0 10fd:10ff:1:+bc0 13a0:13ef:1:+97d0 13f0:13f5:1:+8 13f8:13fd:1:-8
    1c80:1c80:2:-186e 1c81:1c81:2:-186d 1c82:1c82:2:-1864 1c83:1c83:2:-1862 1c84:1c84:2:+1
    1c85:1c85:2:-1863 1c86:1c86:2:-185c 1c87:1c87:2:-1825 1c88:1c88:2:+89c2 1c90:1cba:1:-bc0
    1cbd:1cbf:1:-bc0 1d79:1d79:2:+8a04 1d7d:1d7d:2:+ee6 1d8e:1d8e:2:+8a38 1e00:1e94:2:+1
    1e01:1e5f:2:-1 1e61:1e61:2:+3a 1e63:1e95:2:-1 1e9b:1e9b:2:-3b 1e9e:1e9e:2:-1dbf
    1ea0:1efe:2:+1 1ea1:1eff:2:-1 1f00:1f07:1:+8 1f08:1f0f:1:-8 1f10:1f15:1:+8 1f18:1f1d:1:-8
    1f20:1f27:1:+8 1f28:1f2f:1:-8 1f30:1f37:1:+8 1f38:1f3f:1:-8 1f40:1f45:1:+8 1f48:1f4d:1:-8
    1f51:1f57:2:+8 1f59:1f5f:2:-8 1f60:1f67:1:+8 1f68:1f6f:1:-8 1f70:1f71:1:+4a 1f72:1f75:1:+56
    1f76:1f77:1:+64 1f78:1f79:1:+80 1f7a:1f7b:1:+70 1f7c:1f7d:1:+7e 1f80:1f87:1:+8
    1f88:1f8f:1:-8 1f90:1f97:1:+8 1f98:1f9f:1:-8 1fa0:1fa7:1:+8 1fa8:1faf:1:-8 1fb0:1fb1:1:+8
    1fb3:1fb3:2:+9 1fb8:1fb9:1:-8 1fba:1fbb:1:-4a 1fbc:1fbc:2:-9 1fbe:1fbe:2:-1c79
    1fc3:1fc3:2:+9 1fc8:1fcb:1:-56 1fcc:1fcc:2:-9 1fd0:1fd1:1:+8 1fd8:1fd9:1:-8 1fda:1fdb:1:-64
    1fe0:1fe1:1:+8 1fe5:1fe5:2:+7 1fe8:1fe9:1:-8 1fea:1feb:1:-70 1fec:1fec:2:-7 1ff3:1ff3:2:+9
    1ff8:1ff9:1:-80 1ffa:1ffb:1:-7e 1ffc:1ffc:2:-9 2126:2126:2:-1d7d 212b:212b:2:-2066
    2132:2132:2:+1c 214e:214e:2:-1c 2160:216f:1:+10 2170:217f:1:-10 2183:2183:2:+1
    2184:2184:2:-1 24b6:24cf:1:+1a 24d0:24e9:1:-1a 2c00:2c2f:1:+30 2c30:2c5f:1:-30
    2c60:2c60:2:+1 2c61:2c61:2:-1 2c62:2c62:2:-29f7 2c63:2c63:2:-ee6 2c64:2c64:2:-29e7
    2c65:2c65:2:-2a2b 2c66:2c66:2:-2a28 2c67:2c6b:2:+1 2c68:2c6c:2:-1 2c6d:2c6d:2:-2a1c
    2c6e:2c6e:2:-29fd 2c6f:2c6f:2:-2a1f 2c70:2c70:2:-2a1e 2c72:2c72:2:+1 2c73:2c73:2:-1
    2c75:2c75:2:+1 2c76:2c76:2:-1 2c7e:2c7f:1:-2a3f 2c80:2ce2:2:+1 2c81:2ce3:2:-1 2ceb:2ced:2:+1
    2cec:2cee:2:-1 2cf2:2cf2:2:+1 2cf3:2cf3:2:-1 2d00:2d25:1:-1c60 2d27:2d27:2:-1c60
    2d2d:2d2d:2:-1c60 a640:a66c:2:+1 a641:a649:2:-1 a64b:a64b:2:-89c3 a64d:a66d:2:-1
    a680:a69a:2:+1 a681:a69b:2:-1 a722:a72e:2:+1 a723:a72f:2:-1 a732:a76e:2:+1 a733:a76f:2:-1
    a779:a77b:2:+1 a77a:a77c:2:-1 a77d:a77d:2:-8a04 a77e:a786:2:+1 a77f:a787:2:-1 a78b:a78b:2:+1
    a78c:a78c:2:-1 a78d:a78d:2:-a528 a790:a792:2:+1 a791:a793:2:-1 a794:a794:2:+30
    a796:a7a8:2:+1 a797:a7a9:2:-1 a7aa:a7aa:2:-a544 a7ab:a7ab:2:-a54f a7ac:a7ac:2:-a54b
    a7ad:a7ad:2:-a541 a7ae:a7ae:2:-a544 a7b0:a7b0:2:-a512 a7b1:a7b1:2:-a52a a7b2:a7b2:2:-a515
    a7b3:a7b3:2:+3a0 a7b4:a7c2:2:+1 a7b5:a7c3:2:-1 a7c4:a7c4:2:-30 a7c5:a7c5:2:-a543
    a7c6:a7c6:2:-8a38 a7c7:a7c9:2:+1 a7c8:a7ca:2:-1 a7d0:a7d0:2:+1 a7d1:a7d1:2:-1 a7d6:a7d8:2:+1
    a7d7:a7d9:2:-1 a7f5:a7f5:2:+1 a7f6:a7f6:2:-1 ab53:ab53:2:-3a0 ab70:abbf:1:-97d0
    ff21:ff3a:1:+20 ff41:ff5a:1:-20 10400:10427:1:+28 10428:1044f:1:-28 104b0:104d3:1:+28
    104d8:104fb:1:-28 10570:1057a:1:+27 1057c:1058a:1:+27 1058c:10592:1:+27 10594:10595:1:+27
    10597:105a1:1:-27 105a3:105b1:1:-27 105b3:105b9:1:-27 105bb:105bc:1:-27 10c80:10cb2:1:+40
    10cc0:10cf2:1:-40 118a0:118bf:1:+20 118c0:118df:1:-20 16e40:16e5f:1:+20 16e60:16e7f:1:-20
    1e900:1e921:1:+22 1e922:1e943:1:-22"

/-- A character in lower case. -/
def lowerChar (c : Char) : Char :=
  if c.toNat < 0x80 then c.toLower else follow lowerRuns c

/-- A character in upper case. -/
def upperChar (c : Char) : Char :=
  if c.toNat < 0x80 then c.toUpper else follow upperRuns c

/-- The next character that differs only in case, in a cycle. -/
def nextFold (c : Char) : Char := follow foldRuns c

/-- A text in lower case. -/
def lower (s : String) : String := String.ofList (s.toList.map lowerChar)

/-- A text in upper case. -/
def upper (s : String) : String := String.ofList (s.toList.map upperChar)

/-- The characters reached from `c` by `n` steps along its orbit. -/
def orbitFrom (start : Char) : Nat → Char → List Char
  | 0, _ => []
  | n + 1, c => if nextFold c = start then [c] else c :: orbitFrom start n (nextFold c)

/-- All characters that differ from `c` only in case, `c` first; no orbit has more than four. -/
def orbit (c : Char) : List Char := orbitFrom c 4 c

/-- Equality up to letter case. -/
def equalFold (s t : String) : Bool :=
  s.length == t.length && (s.toList.zip t.toList).all fun (a, b) => a == b || (orbit a).contains b

end Case
end InstallerLint
